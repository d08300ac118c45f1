import Eter.SilentRuns

/-!
# Trees that loops build

An expression is a prefix form and then the turns of the loops over postfix forms and operators. Each
turn builds the next tree out of the one before it.
-/

namespace Eter.Parser
open Stateful NodePool

variable {s t u : PState} {n d j j' : ℕ} {m : ℤ} {x lhs : NodeIndex} {tr tr' : SyntaxTree}
  {rec : Rec}

/-! ### Turns -/

/-- The rest of a turn of the loop over operators. -/
def operatorTurn (rec : Rec) (m : ℤ) (lhs : NodeIndex) : ParserM (Turn NodeIndex NodeIndex) := do
  let bp := infixBindingPower (← peek)
  if bp.1 < m then return .done lhs else parseInfix rec bp.2 lhs

/-- The postfix form that starts with a token. -/
def postfixAt (n : ℕ) (rec : Rec) (lhs : NodeIndex) : Token.Kind → ParserM (Turn NodeIndex NodeIndex)
  | .l_paren => return .again (← parseCall n rec lhs)
  | .dot => return .again (← parseDot lhs)
  | .l_square => return .again (← parsePostfixIndex n rec lhs)
  | .question => return .again (← parsePropagate lhs)
  | .kw_as => return .again (← parseCast rec lhs)
  | _ => return .done lhs

theorem postfixTurn_stops (h : isPostfix (t.stream.peek 0) = false) :
    postfixTurn n rec lhs t = .ok (.done lhs, t) := by
  obtain ⟨r, v, hrun, rfl, hv⟩ : Yields (postfixTurn n rec lhs) (fun r v => r = .done lhs ∧ v = t) t :=
    postfixTurn_done h
  rw [hrun, hv]

/-- A turn that ends in a tree. -/
def Turns (s : PState) (j : ℕ) (tr : SyntaxTree) (r : Turn NodeIndex NodeIndex) (u : PState) : Prop :=
  ∃ y, r = .again y ∧ s.Parsed j tr y u

theorem turns_again {f : ParserM NodeIndex} (h : Yields f (s.Parsed j tr) t) :
    Yields (do return .again (← f) : ParserM (Turn NodeIndex NodeIndex)) (Turns s j tr) t :=
  h.bind fun y _ hy => Yields.pure ⟨y, rfl, hy⟩

/-! ### Trees that are built -/

/-- A prefix form and at most `d` turns build the tree out of the tokens up to `j`. -/
def Built (n d : ℕ) (m : ℤ) (s : PState) (j : ℕ) (tr : SyntaxTree) : Prop :=
  ∃ k ≤ d, ∃ x₀ s₀ x t, parsePrefixExpr n (run n) s = .ok (x₀, s₀) ∧
    Climbs (postfixTurn n (run n)) (operatorTurn (run n) m) k x₀ s₀ x t ∧ s.Parsed j tr x t

theorem Built.mono {d' : ℕ} (h : Built n d m s j tr) (hd : d ≤ d') : Built n d' m s j tr := by
  obtain ⟨k, hk, h⟩ := h
  exact ⟨k, hk.trans hd, h⟩

theorem Built.start (h : Yields (parsePrefixExpr n (run n)) (s.Parsed j tr) s) (d : ℕ) :
    Built n d m s j tr := by
  obtain ⟨x, t, hrun, hx⟩ := h
  exact ⟨0, Nat.zero_le d, x, t, x, t, hrun, .stay, hx⟩

theorem Built.turn (h : Built n d m s j tr) (hstep : ∀ x t, s.Parsed j tr x t →
    Yields (postfixTurn n (run n) x) (Turns s j' tr') t) : Built n (d + 1) m s j' tr' := by
  obtain ⟨k, hk, x₀, s₀, x, t, hrun, hclimbs, hx⟩ := h
  obtain ⟨_, u, hturn, y, rfl, hy⟩ := hstep x t hx
  exact ⟨k + 1, by omega, x₀, s₀, y, u, hrun, hclimbs.trans (.one_inner hturn), hy⟩

theorem Built.operator (h : Built n d m s j tr) (hj : isPostfix (s.kindAt j) = false)
    (hstep : ∀ x t, s.Parsed j tr x t → Yields (operatorTurn (run n) m x) (Turns s j' tr') t) :
    Built n (d + 1) m s j' tr' := by
  obtain ⟨k, hk, x₀, s₀, x, t, hrun, hclimbs, hx⟩ := h
  obtain ⟨_, u, hturn, y, rfl, hy⟩ := hstep x t hx
  have hdone : postfixTurn n (run n) x t = .ok (.done x, t) := postfixTurn_stops (by rwa [hx.kind])
  exact ⟨k + 1, by omega, x₀, s₀, y, u, hrun, hclimbs.trans (.one_outer hdone hturn), hy⟩

/-- The expression ends with the tree. -/
theorem Built.reads (h : Built n d m s j tr) (hj : Ends (s.kindAt j) m) (hn : d < n) :
    Yields (run (n + 1) (.expr m)) (s.Parsed j tr) s := by
  obtain ⟨k, hk, x₀, s₀, x, t, hrun, hclimbs, hx⟩ := h
  have hpeek := hx.kind
  have hdone : postfixTurn n (run n) x t = .ok (.done x, t) :=
    postfixTurn_stops (by rw [hpeek]; exact hj.1)
  have hread : peek t = .ok (s.kindAt j, t) := by
    rw [← hpeek]
    rfl
  have hends : operatorTurn (run n) m x t = .ok (.done x, t) := by
    unfold operatorTurn
    rw [bind_of_ok hread, if_pos hj.2]
    rfl
  refine ⟨x, t, ?_, hx⟩
  show (parsePrefixExpr n (run n) >>= fun lhs => iterate (infixTurn n (run n) m) n lhs) s = _
  rw [bind_of_ok hrun]
  exact hclimbs.run hdone hends (by omega) (by omega)

end Eter.Parser
