import Eter.QuietStmts
import Eter.GrammarOperators

/-!
# Expressions are found

The loops over postfix forms and operators go on with an operand that is complete; an operator that
binds tightly enough makes the next one.
-/

namespace Eter.Parser
open Stateful NodePool Diag

variable {st : TokenStream} {lit : Bool} {s t : PState} {n N e i j k p q : ℕ} {m : ℤ}
  {x : NodeIndex} {tr : SyntaxTree} {w : Token.Kind}

/-! ### Precedences -/

theorem Derives.precedence_bounds (h : Derives st lit (.expr p) i j [tr]) : 10 ≤ p ∧ p ≤ 120 := by
  cases h with
  | binary _ hop =>
    rcases precedence_cases ⟨_, hop⟩ with ⟨-, hp, -⟩ | ⟨-, hp, hp', -⟩
    · exact ⟨hp.ge, hp.trans_le (by decide)⟩
    · exact ⟨le_trans (by decide) hp, hp'.trans (by decide)⟩
  | _ => decide

/-- Only what holds together most tightly is complete before a postfix form. -/
theorem OperandTo.tight (h : OperandTo st lit m i j tr) (hpost : isPostfix (st.kindAt j) = true) :
    Derives st lit (.expr 120) i j [tr] := by
  obtain ⟨p, hder, -, hc | ⟨hno, -⟩⟩ := h
  · obtain rfl : p = 120 := le_antisymm hder.precedence_bounds.2 hc
    exact hder
  · rw [hpost] at hno
    cases hno

theorem OperandTo.of_le {m' : ℤ} (h : OperandTo st lit m i j tr) (hm : m' ≤ m) :
    OperandTo st lit m' i j tr := by
  obtain ⟨p, hder, hp, hc⟩ := h
  exact ⟨p, hder, hm.trans hp, hc⟩

/-- What is complete before an operator may stand to its left. -/
theorem leftPrecedence_le {op : InfixOperator} (hc : Completes op p) :
    Expression.leftPrecedence op ≤ p := by
  unfold Completes at hc
  unfold Expression.leftPrecedence
  rw [infix_left] at hc
  rcases precedence_cases op with ⟨hr, hp, -⟩ | ⟨hl, hp, hle, -⟩
  · rw [if_pos hr]
    rcases hc with hc | ⟨-, hlt⟩
    · omega
    · split_ifs at hlt <;> omega
  · rw [hl, if_neg Bool.false_ne_true]
    rcases hc with hc | ⟨-, hlt⟩
    · omega
    · split_ifs at hlt <;> omega

theorem rightPrecedence_le {op : InfixOperator} (hq : 10 ≤ q) (hbp : (infixBindingPower op).2 ≤ q) :
    Expression.rightPrecedence op ≤ q := by
  unfold Expression.rightPrecedence
  rcases precedence_cases op with ⟨hr, hp, -⟩ | ⟨hl, -, -, hp⟩
  · rw [if_pos hr, hp]
    exact hq
  · rw [hl, if_neg Bool.false_ne_true]
    omega

/-- What ends the right operand completes the operation. -/
theorem completes_of_ends_right {op : InfixOperator} (hw : Ends w (infixBindingPower op).2) :
    Completes w (precedence op) := by
  refine .inr ⟨hw.1, ?_⟩
  have hlt := hw.2
  rcases precedence_cases op with ⟨-, hp, hbp⟩ | ⟨-, hp, -, hbp⟩
  · rw [if_pos hp, ← hbp]
    exact hlt
  · rw [if_neg (by omega), ← hbp]
    exact hlt

theorem bindingPower_bounds (op : InfixOperator) :
    0 ≤ (infixBindingPower op).2 ∧ (infixBindingPower op).2 ≤ 110 := by
  rcases precedence_cases op with ⟨-, -, hbp⟩ | ⟨-, hp, hle, hbp⟩ <;> omega

theorem infixOperator_of_le (hm : 0 ≤ m) (h : ¬ (infixBindingPower w).1 < m) : 0 < precedence w := by
  rw [infixBindingPower_eq] at h
  by_contra hp
  rw [if_pos (by omega)] at h
  exact h (by omega)

/-! ### Prefix forms -/

instance : Ascends (parsePrefixExpr n (run n)) :=
  ascends_of_leads (precedes_walk.parsePrefixExpr (run_walk n).toWalkRec)

/-- A phrase that is an operand. -/
theorem Recognises.operand {ph : Phrase} {f : ParserM NodeIndex} (hf : Recognises st lit ph f)
    (hs : AtToken st lit e i s)
    (hder : ∀ j tr, Derives st lit ph i j [tr] → Derives st lit (.expr 120) i j [tr]) :
    Quiet f (Found (OperandTo st lit 110 i)) s :=
  (hf i e s hs).mono fun _ _ hfound => ⟨hfound.1, hfound.2.imp fun _ htr => (hder _ _ htr).operand⟩

theorem prefixExpr_found (h : Recognition st n) (hs : AtToken st lit e i s) :
    Quiet (parsePrefixExpr n (run n)) (Found (OperandTo st lit 110 i)) s := by
  unfold parsePrefixExpr
  refine hs.peekToken ?_
  rw [tokenAt_kind]
  split
  · next hlit =>
    unfold parseLitExpr
    refine hs.advance ?_ fun t₁ h₁ => h₁.internText fun id t₂ h₂ _ => ?_
    · intro hk
      rw [hk] at hlit
      cases hlit
    · exact h₂.leaf (by decide) (Derives.literal hlit).operand
  · split
    · next hop => exact unary_found h hs hop
    · split
      · next hk => exact nameExpr_found h hs hk
      · next hk => exact parenExpr_found h hs hk
      · next hk => exact arrayLit_found h hs hk
      · exact (h.ifExpr lit).operand hs fun _ _ => .ifOperand
      · exact (h.parseWhileStmt lit).operand hs fun _ _ => .whileOperand
      · exact (h.parseMatchExpr lit).operand hs fun _ _ => .matchOperand
      · exact (h.parseUnsafeBlock lit).operand hs fun _ _ => .unsafeOperand
      · exact (h.block lit).operand hs fun _ _ => .blockOperand
      · next hk => exact tensorLit_found h hs hk
      · next hk => exact star_found h hs hk
      · unfold parseBadExpr
        dsimp only
        split
        · exact Quiet.addError
        · exact Quiet.behind fun _ _ => Quiet.addError

/-! ### Postfix forms -/

instance : Ascends (postfixTurn n (run n) x) :=
  ascends_of_leads (precedes_walk.postfixTurn (run_walk n).toWalkRec x)

/-- A node that is no error, for an operand up to token `j`. -/
def Holding (st : TokenStream) (lit : Bool) (e i : ℕ) (m : ℤ) (x : NodeIndex) (t : PState) : Prop :=
  ∃ j tr, AtToken st lit e j t ∧ t.Proper x ∧ OperandTo st lit m i j tr

theorem again_found {f : ParserM NodeIndex} {P : NodeIndex → PState → Prop} [Ascends f]
    (hs : AtToken st lit e j s) (hf : Quiet f (Found (Extends st lit i)) s) (hm : m ≤ 110) :
    Quiet (do return .again (← f)) (fun (r : Turn NodeIndex NodeIndex) t =>
      r.Leads (fun x' => Holding st lit e i m x' t) (fun y => P y t)) s := by
  refine hs.call hf fun y k t ht hk hfound => Silent.pure ?_
  obtain ⟨hy, tr, htr⟩ := hfound
  subst hk
  exact ⟨_, tr, ht, hy, (Derives.operand htr).of_le hm⟩

/-- An operand that no postfix form is behind. -/
def Bare (st : TokenStream) (lit : Bool) (i : ℕ) (m : ℤ) (j : ℕ) (tr : SyntaxTree) : Prop :=
  OperandTo st lit m i j tr ∧ isPostfix (st.kindAt j) = false

theorem postfixTurn_found (h : Recognition st n) (hm : m ≤ 110) (hs : Holding st lit e i m x s) :
    Quiet (postfixTurn n (run n) x) (fun r t => r.Leads (fun x' => Holding st lit e i m x' t)
      (fun y => Found (Bare st lit i m) y t)) s := by
  obtain ⟨j, tr, hat, hx, htr⟩ := hs
  unfold postfixTurn
  refine hat.peek ?_
  split
  · next hk => exact again_found hat (call_found h hat (htr.tight (by rw [hk]; rfl))) hm
  · next hk => exact again_found hat (dot_found hat (htr.tight (by rw [hk]; rfl)) hk) hm
  · next hk => exact again_found hat (index_found h hat (htr.tight (by rw [hk]; rfl)) hk) hm
  · next hk => exact again_found hat (propagate_found hat (htr.tight (by rw [hk]; rfl)) hk) hm
  · next hk => exact again_found hat (cast_found h hat (htr.tight (by rw [hk]; rfl)) hk) hm
  · next h₁ h₂ h₃ h₄ h₅ =>
    refine Silent.pure ⟨hx, tr, ?_⟩
    rw [hat.cursor]
    exact ⟨htr, by simpa [isPostfix] using ⟨⟨⟨⟨h₁, h₂⟩, h₃⟩, h₄⟩, h₅⟩⟩

theorem postfix_found (h : Recognition st n) (hm : m ≤ 110) (hs : Holding st lit e i m x s) :
    Quiet (iterate (postfixTurn n (run n)) N x) (Found (Bare st lit i m)) s := by
  induction N generalizing x s with
  | zero => exact Silent.throw
  | succ N ih => exact Silent.turn noise_mono (postfixTurn_found h hm hs) fun _ _ hs' => ih hs'

/-! ### Operators -/

instance (bp : ℤ) : Ascends (parseInfix (run n) bp x) := by
  unfold parseInfix
  infer_instance

instance : Ascends (infixTurn n (run n) m x) :=
  ascends_of_leads (precedes_walk.infixTurn (run_walk n).toWalkRec m x)

/-- An expression up to a token that ends it. -/
def ExprTo (st : TokenStream) (lit : Bool) (m : ℤ) (i j : ℕ) (tr : SyntaxTree) : Prop :=
  ∃ p : ℕ, Derives st lit (.expr p) i j [tr] ∧ m ≤ p ∧ Ends (st.kindAt j) m

theorem infix_found {P : NodeIndex → PState → Prop} (h : Recognition st n)
    (hs : AtToken st lit e j s) (htr : OperandTo st lit m i j tr) (hop : 0 < precedence (st.kindAt j))
    (hm : m ≤ (infixBindingPower (st.kindAt j)).1) :
    Quiet (parseInfix (run n) (infixBindingPower (st.kindAt j)).2 x) (fun r t =>
      r.Leads (fun x' => Holding st lit e i m x' t) (fun y => P y t)) s := by
  obtain ⟨p, hleft, -, hc⟩ := htr
  have hbounds := bindingPower_bounds ⟨_, hop⟩
  have hne : st.kindAt j ≠ .eof := by
    intro hk
    rw [hk] at hop
    cases hop
  unfold parseInfix
  refine hs.advance hne fun t₁ h₁ => ?_
  refine h₁.find (h.expr lit _ hbounds.1 hbounds.2 _) fun y k tr' t₂ h₂ hy hright => ?_
  obtain ⟨q, hder, hq, hends⟩ := hright
  refine Quiet.kindOf hy fun kind hkind => ?_
  rw [if_neg hkind]
  refine Quiet.spanOf fun _ => Quiet.spanOf fun _ => ?_
  refine h₂.alloc_then (by decide) fun z t₃ h₃ hz => Silent.pure ?_
  have hl : Expression.leftPrecedence ⟨_, hop⟩ ≤ p := leftPrecedence_le hc
  have hr : Expression.rightPrecedence ⟨_, hop⟩ ≤ q :=
    rightPrecedence_le hder.precedence_bounds.1 hq
  have hcompletes : Completes (st.kindAt k) (precedence (⟨_, hop⟩ : InfixOperator)) :=
    completes_of_ends_right hends
  refine ⟨k, _, h₃, hz, _, .binary hleft hop hl hder hr, ?_, hcompletes⟩
  rwa [← infix_left ⟨_, hop⟩]

theorem infixTurn_found (h : Recognition st n) (hm₀ : 0 ≤ m) (hm : m ≤ 110)
    (hs : Holding st lit e i m x s) : Quiet (infixTurn n (run n) m x) (fun r t =>
      r.Leads (fun x' => Holding st lit e i m x' t) (fun y => Found (ExprTo st lit m i) y t)) s := by
  obtain ⟨j, tr, hat, hx, htr⟩ := id hs
  unfold infixTurn parsePostfixOrCallExpr
  refine hat.call (postfix_found h hm hs) fun y k t₁ h₁ hk hfound => ?_
  obtain ⟨hy, tr', hoperand, hpost⟩ := hfound
  subst hk
  refine h₁.peek ?_
  by_cases hbp : (infixBindingPower (st.kindAt t₁.stream.cursor)).1 < m
  · rw [if_pos hbp]
    obtain ⟨p, hder, hp, -⟩ := hoperand
    exact Silent.pure ⟨hy, tr', p, hder, hp, hpost, hbp⟩
  · rw [if_neg hbp]
    exact infix_found h h₁ hoperand (infixOperator_of_le hm₀ hbp) (not_lt.mp hbp)

theorem Recognition.parseExpr (h : Recognition st n) (lit : Bool) (hm₀ : 0 ≤ m) (hm : m ≤ 110) (i : ℕ) :
    Finds st lit (parseExpr n (run n) m) i (ExprTo st lit m i) := by
  intro e s hs
  unfold Parser.parseExpr
  refine hs.find (fun e s hs => prefixExpr_found h hs) fun x j tr t₁ h₁ hx htr => ?_
  have hloop : ∀ (N : ℕ) (x : NodeIndex) (s : PState), Holding st lit e i m x s →
      Quiet (iterate (infixTurn n (run n) m) N x) (Found (ExprTo st lit m i)) s := by
    intro N
    induction N with
    | zero => exact fun _ _ _ => Silent.throw
    | succ N ih =>
      exact fun x s hs => Silent.turn noise_mono (infixTurn_found h hm₀ hm hs) fun x' s' hs' =>
        ih x' s' hs'
  exact hloop n x t₁ ⟨j, tr, h₁, hx, htr.of_le hm⟩

end Eter.Parser
