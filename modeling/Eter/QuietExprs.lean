import Eter.QuietTypes
import Eter.GrammarOperators

/-!
# Operands are found
-/

namespace Eter.Parser
open Stateful NodePool Diag

variable {α : Type} {st : TokenStream} {lit b : Bool} {s t : PState} {n e i j k p : ℕ} {m : ℤ}
  {Q : α → PState → Prop} {name : InternedStr} {start : Span} {path : Bool × Span}
  {x : NodeIndex} {tr : SyntaxTree}

/-- An operand of the binding power that is complete. -/
def OperandTo (st : TokenStream) (lit : Bool) (m : ℤ) (i j : ℕ) (tr : SyntaxTree) : Prop :=
  ∃ p : ℕ, Derives st lit (.expr p) i j [tr] ∧ m ≤ p ∧ Completes (st.kindAt j) p

theorem Derives.operand (h : Derives st lit (.expr 120) i j [tr]) : OperandTo st lit 110 i j tr :=
  ⟨120, h, by decide, .inl le_rfl⟩

/-! ### Names and struct literals -/

theorem Recognition.parseFieldInit (h : Recognition st n) (lit : Bool) :
    Recognises st lit .fieldInit (parseFieldInit (run n)) := by
  intro i e s hs
  unfold Parser.parseFieldInit
  refine hs.unless (fun _ => hs.peekToken Quiet.addError) fun hname => ?_
  refine hs.advance (by rw [hname]; decide) fun t₁ h₁ => h₁.internText fun id t₂ h₂ _ => ?_
  refine h₂.consumed (by decide) (fun hcolon t₃ h₃ => ?_) fun hend => ?_
  · refine h₃.find (h.full lit _) fun x j tr t₄ h₄ _ htr => Quiet.spanOf fun span => ?_
    exact h₄.alloc (by decide) (.fieldInit hname hcolon htr)
  · refine h₂.alloc_then (by decide) fun x t₃ h₃ _ => ?_
    exact h₃.alloc (by decide) (.shortFieldInit hname hend)

instance : Ascends (parseFieldInit (run n)) :=
  ascends_of_leads (precedes_walk.parseFieldInit (run_walk n).toWalkRec)

instance : Ascends (parseStructLitExpr n (run n) name start) :=
  ascends_of_leads (precedes_walk.parseStructLitExpr (run_walk n).toWalkRec name start)

instance : Ascends structLitAllowed :=
  ascends_of_leads (precedes_grow.of_reads fun _ _ _ hm => by cases hm; rfl)

theorem AtToken.structLitAllowed {f : Bool → ParserM α} (h : AtToken st lit e i s)
    (hf : Quiet (f lit) Q s) : Quiet (Parser.structLitAllowed >>= f) Q s := by
  rw [← h.lit] at hf
  exact Silent.read rfl hf

theorem nameExpr_found (h : Recognition st n) (hs : AtToken st lit e i s)
    (hname : st.kindAt i = .identifier) :
    Quiet (parseNameExpr n (run n) (st.tokenAt i)) (Found (OperandTo st lit 110 i)) s := by
  unfold parseNameExpr
  refine hs.advance (by rw [hname]; decide) fun t₁ h₁ => ?_
  refine h₁.pathSegments fun r j t₂ h₂ hpath hsep => h₂.internText fun id t₃ h₃ _ => ?_
  refine h₃.structLitAllowed (h₃.check ?_)
  split
  · next hand =>
    obtain ⟨rfl, hopen⟩ := Bool.and_eq_true_iff.mp hand
    replace hopen := of_decide_eq_true hopen
    unfold parseStructLitExpr
    refine h₃.advance (by rw [hopen]; decide) fun t₄ h₄ => h₄.inside fun t₅ h₅ => ?_
    refine h₅.commaSeparated (h.parseFieldInit true) fun ys k ts t₆ h₆ hts _ => ?_
    exact h₆.expect (by decide) fun hclose t₇ h₇ =>
      h₇.alloc (by decide) (Derives.structLit hname hpath hopen hts hclose).operand
  · next hand =>
    refine h₃.leaf (by split <;> decide) (Derives.name hname hpath hsep ?_).operand
    rintro rfl hopen
    exact hand (by simp [hopen])

/-! ### Brackets -/

theorem MoreOf.rest {close : Token.Kind → Bool} {ts : List SyntaxTree}
    (h : MoreOf st (Derived st lit .full) close j k ts) (hj : st.kindAt j = .comma) :
    Derives st lit (.commas .full) (j + 1) k ts := by
  cases h with
  | stop hk => exact absurd hj hk
  | trailing => exact .noCommas
  | cons _ _ helem hrest => exact hrest.commas helem

instance (tok : Token) : Ascends (parseTupleRest n (run n) tok x) := by
  unfold parseTupleRest
  infer_instance

theorem parenExpr_found (h : Recognition st n) (hs : AtToken st lit e i s)
    (hopen : st.kindAt i = .l_paren) :
    Quiet (parseParenExpr n (run n) (st.tokenAt i)) (Found (OperandTo st lit 110 i)) s := by
  unfold parseParenExpr
  refine hs.advance (by rw [hopen]; decide) fun t₁ h₁ => h₁.inside fun t₂ h₂ => ?_
  refine h₂.branch (fun hclose => ?_) fun _ => ?_
  · refine h₂.advance (by rw [hclose]; decide) fun t₃ h₃ => ?_
    exact h₃.alloc (by decide) (Derives.unit hopen hclose).operand
  · refine h₂.find (h.full true _) fun x j tr t₃ h₃ hx htr => ?_
    refine h₃.branch (fun hcomma => ?_) fun _ => Quiet.keep hx ((h₃.expects (by decide)).mono ?_)
    · unfold parseTupleRest
      refine h₃.more (h.full true) fun ys k ts t₄ h₄ hmore _ => ?_
      exact h₄.expect (by decide) fun hclose t₅ h₅ => h₅.alloc (by decide)
        (Derives.tuple hopen htr hcomma (hmore.rest hcomma) hclose).operand
    · rintro _ t₄ ⟨hclose, h₄⟩
      rw [h₄.cursor]
      exact ⟨tr, (Derives.grouped hopen htr hclose).operand⟩

instance : Ascends (parseArrayRest n (run n) start x) := by
  unfold parseArrayRest
  infer_instance

theorem arrayRest_found (h : Recognition st n) (hs : AtToken st true e j s)
    (hopen : st.kindAt i = .l_square) (htr : Derives st true .full (i + 1) j [tr]) :
    Quiet (parseArrayRest n (run n) start x) (Found (OperandTo st lit 110 i)) s := by
  unfold parseArrayRest
  refine hs.consumed (by decide) (fun hsemi t₁ h₁ => ?_) fun _ => ?_
  · refine h₁.find (h.full true _) fun y k count t₂ h₂ _ hcount => ?_
    exact h₂.expect (by decide) fun hclose t₃ h₃ => h₃.alloc (by decide)
      (Derives.repeated hopen htr hsemi hcount hclose).operand
  · refine hs.more (h.full true) fun ys k ts t₁ h₁ hmore _ => ?_
    exact h₁.expect (by decide) fun hclose t₂ h₂ => h₂.alloc (by decide)
      (Derives.array hopen (hmore.commas htr) hclose).operand

theorem arrayLit_found (h : Recognition st n) (hs : AtToken st lit e i s)
    (hopen : st.kindAt i = .l_square) :
    Quiet (parseArrayLitExpr n (run n)) (Found (OperandTo st lit 110 i)) s := by
  unfold parseArrayLitExpr
  refine hs.advance (by rw [hopen]; decide) fun t₁ h₁ => h₁.inside fun t₂ h₂ => ?_
  refine h₂.branch (fun hclose => ?_) fun _ => ?_
  · refine h₂.advance (by rw [hclose]; decide) fun t₃ h₃ => ?_
    exact h₃.alloc (by decide) (Derives.array hopen .noCommas hclose).operand
  · exact h₂.find (h.full true _) fun x j tr t₃ h₃ _ htr => arrayRest_found h h₃ hopen htr

/-- A list under the other flag. -/
theorem AtToken.insideList {m : ParserM (List NodeIndex)} {f : List NodeIndex → ParserM α} [Ascends m]
    [∀ ys, Ascends (f ys)] {R : ℕ → List NodeIndex → Prop} (hs : AtToken st lit e i s)
    (hm : ∀ t, AtToken st b e i t → Quiet m (fun ys u => R u.stream.cursor ys) t)
    (hf : ∀ ys j t, AtToken st lit e j t → R j ys → Quiet (f ys) Q t) :
    Quiet (withStructLit b m >>= f) Q s :=
  hs.call (Quiet.withStructLit (hm _ (hs.allow b)) fun _ _ hR => hR) fun ys _ t ht hj hR =>
    hf ys _ t ht (hj ▸ hR)

/-- A first expression and those behind it. -/
theorem exprs_found {close : Token.Kind → Bool} (h : Recognition st n) (hs : AtToken st b e i s) :
    Quiet (do
      let first ← run n (.expr 0)
      parseMore n [first] close (run n (.expr 0))) (fun ys u => ∃ tr ts,
        Derives st b (.commas .full) i u.stream.cursor (tr :: ts) ∧ ys.length = ts.length + 1) s := by
  refine hs.find (h.full b _) fun x j tr t₁ h₁ _ htr => ?_
  refine (more_finds (h.full b) h₁).mono fun ys t₂ hys => ?_
  obtain ⟨ts, hmore, hlen⟩ := hys
  exact ⟨tr, ts, hmore.commas htr, by rw [hlen, List.length_singleton, Nat.add_comm]⟩

theorem tensorLit_found (h : Recognition st n) (hs : AtToken st lit e i s)
    (hword : st.kindAt i = .kw_tensor) :
    Quiet (parseTensorLitExpr n (run n)) (Found (OperandTo st lit 110 i)) s := by
  unfold parseTensorLitExpr parseTensorValues
  refine hs.advance (by rw [hword]; decide) fun t₁ h₁ => h₁.expect (by decide) fun hopen t₂ h₂ => ?_
  refine h₂.insideList (R := fun j ys => ∃ tr ts, Derives st true (.commas .full) (i + 2) j (tr :: ts) ∧
    ys.length = ts.length + 1) (fun t₃ h₃ => exprs_found h h₃) fun ys j t₃ h₃ hys => ?_
  obtain ⟨tr, ts, hvalues, hlen⟩ := hys
  refine h₃.expect (by decide) fun hsemi t₄ h₄ => ?_
  refine h₄.commaSeparated (h.full lit) fun zs k dims t₅ h₅ hdims hcount => ?_
  refine Quiet.requireDim fun hempty => ?_
  have hne : dims.length % 2 ^ 16 ≠ 0 := by
    have hmod := of_decide_eq_false hempty
    rw [hcount] at hmod
    omega
  exact h₅.expect (by decide) fun hclose t₆ h₆ => h₆.alloc (by decide)
    (Derives.tensor hword hopen hvalues (List.cons_ne_nil _ _) hsemi hdims hne hclose).operand

/-! ### Prefix operators -/

theorem unary_found (h : Recognition st n) (hs : AtToken st lit e i s)
    (hop : isPrefixOperator (st.kindAt i) = true) :
    Quiet (parseUnaryExpr (run n) (st.tokenAt i)) (Found (OperandTo st lit 110 i)) s := by
  have hne : st.kindAt i ≠ .eof := by
    intro hk
    rw [hk] at hop
    cases hop
  unfold parseUnaryExpr
  refine hs.advance hne fun t₁ h₁ => ?_
  rw [tokenAt_kind, prefixBindingPower_eq ⟨_, hop⟩]
  refine h₁.find (h.expr lit 110 (by decide) le_rfl _) fun x j tr t₂ h₂ _ hx => ?_
  obtain ⟨p, htr, hp, hends⟩ := hx
  have hder := Derives.unary hop htr (by exact_mod_cast hp)
  exact Quiet.spanOf fun span => h₂.alloc (by decide)
    ⟨110, hder, le_rfl, completes_of_ends hends le_rfl⟩

theorem star_found (h : Recognition st n) (hs : AtToken st lit e i s) (hop : st.kindAt i = .star) :
    Quiet (parseStarExpr (run n) (st.tokenAt i)) (Found (OperandTo st lit 110 i)) s := by
  unfold parseStarExpr
  refine hs.advance (by rw [hop]; decide) fun t₁ h₁ => ?_
  rw [tokenAt_kind, hop]
  refine h₁.find (h.expr lit 110 (by decide) le_rfl _) fun x j tr t₂ h₂ _ hx => ?_
  obtain ⟨p, htr, hp, hends⟩ := hx
  refine h₂.consumed (by decide) (fun heq t₃ h₃ => ?_) fun hend => ?_
  · refine h₃.find (h.full lit _) fun y k value t₄ h₄ _ hvalue => Quiet.spanOf fun span => ?_
    exact h₄.alloc (by decide)
      (Derives.projAssign hop htr (by exact_mod_cast hp) heq hvalue).operand
  · have hder := Derives.deref hop htr (by exact_mod_cast hp) hend
    exact Quiet.spanOf fun span => h₂.alloc (by decide)
      ⟨110, hder, le_rfl, completes_of_ends hends le_rfl⟩

/-! ### Postfix forms -/

/-- What is behind the operand of a postfix form. -/
def Extends (st : TokenStream) (lit : Bool) (i k : ℕ) (tr : SyntaxTree) : Prop :=
  Derives st lit (.expr 120) i k [tr]

instance : Ascends (parseArgs n (run n)) := by
  unfold parseArgs
  infer_instance

instance : Ascends (parseArgList n (run n)) := by
  unfold parseArgList
  infer_instance

theorem argList_found (h : Recognition st n) (hs : AtToken st lit e i s) :
    Quiet (parseArgList n (run n)) (Found fun j tr => Derives st lit .args i j [tr]) s := by
  unfold parseArgList
  refine hs.expect (by decide) fun hopen t₁ h₁ => h₁.inside fun t₂ h₂ => ?_
  have hlist : Quiet (parseArgs n (run n)) (FoundList (.list .full) st true (i + 1) []) t₂ :=
    first_finds (h.full true) h₂ (fun _ => .noList) fun _ _ _ _ _ htr hmore => hmore.list htr
  refine h₂.list hlist fun ys j ts t₃ h₃ hts _ => ?_
  exact h₃.expect (by decide) fun hclose t₄ h₄ => h₄.alloc (by decide) (.args hopen hts hclose)

instance : Ascends (parseCall n (run n) x) := by
  unfold parseCall
  infer_instance

theorem call_found (h : Recognition st n) (hs : AtToken st lit e j s)
    (htr : Derives st lit (.expr 120) i j [tr]) :
    Quiet (parseCall n (run n) x) (Found (Extends st lit i)) s := by
  unfold parseCall
  refine hs.call (argList_found h hs) fun y k t₁ h₁ hk hfound => ?_
  obtain ⟨-, args, hargs⟩ := hfound
  subst hk
  exact Quiet.spanOf fun _ => Quiet.spanOf fun _ => h₁.alloc (by decide) (Derives.call htr hargs)

instance : Ascends (parsePostfixIndex n (run n) x) := by
  unfold parsePostfixIndex
  infer_instance

theorem index_found (h : Recognition st n) (hs : AtToken st lit e j s)
    (htr : Derives st lit (.expr 120) i j [tr]) (hopen : st.kindAt j = .l_square) :
    Quiet (parsePostfixIndex n (run n) x) (Found (Extends st lit i)) s := by
  unfold parsePostfixIndex
  refine hs.advance (by rw [hopen]; decide) fun t₁ h₁ => Quiet.spanOf fun _ => ?_
  refine h₁.insideList (R := fun k ys => ∃ tr ts, Derives st true (.commas .full) (j + 1) k (tr :: ts) ∧
    ys.length = ts.length + 1) (fun t₂ h₂ => exprs_found h h₂) fun ys k t₂ h₂ hys => ?_
  obtain ⟨f, ts, hindices, hlen⟩ := hys
  exact h₂.expect (by decide) fun hclose t₃ h₃ => h₃.alloc (by split <;> decide)
    (Derives.index htr hopen hindices (List.cons_ne_nil _ _) hclose)

instance : Ascends (parsePropagate x) := by
  unfold parsePropagate
  infer_instance

theorem propagate_found (hs : AtToken st lit e j s) (htr : Derives st lit (.expr 120) i j [tr])
    (hmark : st.kindAt j = .question) :
    Quiet (parsePropagate x) (Found (Extends st lit i)) s := by
  unfold parsePropagate
  refine hs.advance (by rw [hmark]; decide) fun t₁ h₁ => Quiet.spanOf fun _ => Quiet.previous fun _ => ?_
  exact h₁.alloc (by decide) (Derives.propagate htr hmark)

instance : Ascends (parseCast (run n) x) := by
  unfold parseCast
  infer_instance

theorem cast_found (h : Recognition st n) (hs : AtToken st lit e j s)
    (htr : Derives st lit (.expr 120) i j [tr]) (hword : st.kindAt j = .kw_as) :
    Quiet (parseCast (run n) x) (Found (Extends st lit i)) s := by
  unfold parseCast
  refine hs.advance (by rw [hword]; decide) fun t₁ h₁ => ?_
  refine h₁.find (h.type lit _) fun y k type t₂ h₂ _ htype => ?_
  exact Quiet.spanOf fun _ => Quiet.spanOf fun _ => h₂.alloc (by decide)
    (Derives.cast htr hword htype)

instance (stop : ℕ) (text : Bytes) : Ascends (allocTupleIndex x stop text) := by
  unfold allocTupleIndex
  infer_instance

theorem tupleIndex_found {stop : ℕ} {text : Bytes} {R : ℕ → SyntaxTree → Prop}
    (hs : AtToken st lit e j s) (hR : R j tr) :
    Quiet (allocTupleIndex x stop text) (Found R) s := by
  unfold allocTupleIndex
  exact Quiet.spanOf fun _ => hs.intern fun id t₁ h₁ _ => h₁.alloc (by decide) hR

theorem floatIndex_found {a c : Bytes} (hs : AtToken st lit e (j + 1) s)
    (htr : Derives st lit (.expr 120) i j [tr]) (hdot : st.kindAt j = .dot)
    (hindex : st.kindAt (j + 1) = .float_literal)
    (htext : splitDot (st.textAt (j + 1)) = some (a, c)) :
    Quiet (parseFloatIndex x (st.tokenAt (j + 1)) a (dropSuffixF c)) (Found (Extends st lit i)) s := by
  have hder : Extends st lit i (j + 2) _ := Derives.floatIndex htr hdot hindex htext
  unfold parseFloatIndex
  refine hs.advance (by rw [hindex]; decide) fun t₁ h₁ => ?_
  refine h₁.call (tupleIndex_found h₁ hder) fun y k t₂ h₂ hk hfound => ?_
  obtain ⟨hy, f, hR⟩ := hfound
  subst hk
  split
  · exact tupleIndex_found h₂ hR
  · exact h₂.result hy hR

theorem field_found (hs : AtToken st lit e (j + 1) s) (htr : Derives st lit (.expr 120) i j [tr])
    (hdot : st.kindAt j = .dot) : Quiet (parseField x) (Found (Extends st lit i)) s := by
  unfold parseField expectAndIntern
  rw [bind_assoc]
  refine hs.expect (by decide) fun hname t₁ h₁ => h₁.internText fun id t₂ h₂ _ => ?_
  exact Quiet.spanOf fun _ => Quiet.previous fun _ => h₂.alloc (by decide)
    (Derives.field htr hdot hname)

instance : Ascends (parseDot x) := ascends_of_leads (precedes_walk.parseDot x)

theorem dot_found (hs : AtToken st lit e j s) (htr : Derives st lit (.expr 120) i j [tr])
    (hdot : st.kindAt j = .dot) : Quiet (parseDot x) (Found (Extends st lit i)) s := by
  unfold parseDot
  refine hs.advance (by rw [hdot]; decide) fun t₁ h₁ => h₁.branch (fun hindex => ?_) fun _ => ?_
  · refine h₁.advance (by rw [hindex]; decide) fun t₂ h₂ => h₂.text ?_
    exact tupleIndex_found h₂ (Derives.tupleIndex htr hdot hindex)
  · unfold floatIndex
    rw [bind_assoc]
    refine h₁.check ?_
    by_cases hindex : st.kindAt (j + 1) = .float_literal
    · rw [decide_eq_true hindex, if_pos rfl, bind_assoc]
      refine h₁.peekToken ?_
      rw [bind_assoc]
      refine h₁.text ?_
      rw [pure_bind]
      cases htext : splitDot (st.textOf (st.tokenAt (j + 1)).tokenSpan) with
      | none => exact field_found h₁ htr hdot
      | some r => exact floatIndex_found h₁ htr hdot hindex htext
    · rw [decide_eq_false hindex, if_neg Bool.false_ne_true, pure_bind]
      exact field_found h₁ htr hdot

end Eter.Parser
