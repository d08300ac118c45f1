import Eter.SyntaxTrees
import Eter.TupleIndices

/-!
# Expressions and their tokens

Expressions without spans and identifiers, the tokens they are written with, and the trees they
stand for. Parentheses are written only where the documented precedence and associativity of the
operators require them.
-/

namespace Eter.Parser
open NodePool

/-- The documented precedence of the infix operators; 0 for other tokens. -/
def precedence : Token.Kind → ℕ
  | .eq | .plus_eq | .minus_eq | .star_eq | .slash_eq | .percent_eq | .amp_eq | .pipe_eq
  | .caret_eq | .less_less_eq | .greater_greater_eq => 10
  | .pipe_pipe => 20
  | .amp_amp => 30
  | .eq_eq | .bang_eq | .less | .greater | .less_eq | .greater_eq => 40
  | .pipe => 50
  | .caret => 60
  | .amp => 70
  | .less_less | .greater_greater => 80
  | .plus | .minus => 90
  | .star | .slash | .percent => 100
  | _ => 0

/-- Assignments are right-associative, all other infix operators left-associative. -/
def isRightAssociative (k : Token.Kind) : Bool := precedence k = 10

abbrev LiteralKind := { k : Token.Kind // isLiteral k = true }

abbrev PrefixOperator := { k : Token.Kind // isPrefixOperator k = true }

abbrev InfixOperator := { k : Token.Kind // 0 < precedence k }

inductive Expression where
  | literal (k : LiteralKind) (text : Bytes)
  | ident (text : Bytes)
  | unary (op : PrefixOperator) (operand : Expression)
  | binary (op : InfixOperator) (left right : Expression)
  | call (callee : Expression) (args : List Expression)
  | field (base : Expression) (name : Bytes)
  | tupleIndex (base : Expression) (text : Bytes)
  | index (base first : Expression) (more : List Expression)
  | propagate (operand : Expression)
  | cast (operand : Expression) (type : Bytes)
  | tuple (elems : List Expression)
  | array (elems : List Expression)
  | repeated (elem count : Expression)

/-! ### Tokens -/

/-- A token as it is written; the text of punctuation does not matter. -/
structure Word where
  kind : Token.Kind
  text : Option Bytes

def sign (k : Token.Kind) : Word := ⟨k, none⟩

def spelled (k : Token.Kind) (text : Bytes) : Word := ⟨k, some text⟩

def parenthesised (ws : List Word) : List Word := sign .l_paren :: ws ++ [sign .r_paren]

theorem length_parenthesised (ws : List Word) : (parenthesised ws).length = ws.length + 2 := by
  simp [parenthesised]

namespace Expression

/-- How tightly an expression holds together. -/
def precedence : Expression → ℕ
  | .binary op _ _ => Parser.precedence op
  | .unary _ _ => 110
  | _ => 120

/-- The precedence from which on a left operand needs no parentheses. -/
def leftPrecedence (op : InfixOperator) : ℕ :=
  if isRightAssociative op then Parser.precedence op + 1 else Parser.precedence op

/-- The precedence from which on a right operand needs no parentheses. -/
def rightPrecedence (op : InfixOperator) : ℕ :=
  if isRightAssociative op then Parser.precedence op else Parser.precedence op + 1

/-- Parentheses where less than the precedence is held together. -/
def wrapped (least : ℕ) (e : Expression) (ws : List Word) : List Word :=
  if e.precedence < least then parenthesised ws else ws

mutual

/-- The tokens of an expression. -/
def words : Expression → List Word
  | .literal k text => [spelled k text]
  | .ident text => [spelled .identifier text]
  | .unary op e => sign op :: wrapped 110 e e.words
  | .binary op l r =>
    wrapped (leftPrecedence op) l l.words ++ sign op :: wrapped (rightPrecedence op) r r.words
  | .call f args => wrapped 120 f f.words ++ parenthesised (listWords args)
  | .field e name => wrapped 120 e e.words ++ [sign .dot, spelled .identifier name]
  | .tupleIndex e text => wrapped 120 e e.words ++ [sign .dot, spelled .integer_literal text]
  | .index e i is =>
    wrapped 120 e e.words ++ sign .l_square :: i.words ++ moreWords is ++ [sign .r_square]
  | .propagate e => wrapped 120 e e.words ++ [sign .question]
  | .cast e type => wrapped 120 e e.words ++ [sign .kw_as, spelled .identifier type]
  | .tuple es =>
    parenthesised (listWords es ++ if es.length = 1 then [sign .comma] else [])
  | .array es => sign .l_square :: listWords es ++ [sign .r_square]
  | .repeated e count => sign .l_square :: e.words ++ sign .semi :: count.words ++ [sign .r_square]

/-- Expressions behind commas. -/
def moreWords : List Expression → List Word
  | [] => []
  | e :: es => sign .comma :: e.words ++ moreWords es

/-- Expressions with commas between them. -/
def listWords : List Expression → List Word
  | [] => []
  | e :: es => e.words ++ moreWords es

end

/-- The indices are a list. -/
theorem words_index (e i : Expression) (is : List Expression) : (index e i is).words =
    wrapped 120 e e.words ++ (sign .l_square :: (listWords (i :: is) ++ [sign .r_square])) := by
  simp [words, listWords]

theorem length_moreWords (e : Expression) (es : List Expression) :
    (moreWords (e :: es)).length = e.words.length + (moreWords es).length + 1 := by
  simp [moreWords]

/-! ### Trees -/

mutual

/-- The tree of an expression. -/
def tree : Expression → SyntaxTree
  | .literal _ text => .node .LitExpr 0 (some text) 0 []
  | .ident text => .node .IdentExpr 0 (some text) 0 []
  | .unary op e => .node .UnaryExpr 0 none (makeOpPayload op.val.value) [e.tree]
  | .binary op l r => .node .BinaryExpr 0 none (makeOpPayload op.val.value) [l.tree, r.tree]
  | .call f args => .node .CallExpr 0 none 0 [f.tree, .node .ArgList 0 none 0 (trees args)]
  | .field e name => .node .FieldExpr 0 (some name) 0 [e.tree]
  | .tupleIndex e text => .node .TupleIndexExpr 0 (some text) 0 [e.tree]
  | .index e i is =>
    .node (if is = [] then .IndexExpr else .TensorIndexExpr) 0 none 0 (e.tree :: i.tree :: trees is)
  | .propagate e => .node .PropagateExpr 0 none 0 [e.tree]
  | .cast e type => .node .CastExpr 0 none 0 [e.tree, .node .NamedType 0 (some type) 0 []]
  | .tuple es => .node .TupleExpr 0 none 0 (trees es)
  | .array es => .node .ArrayLitExpr 0 none 0 (trees es)
  | .repeated e count => .node .ArrayRepeatExpr 0 none 0 [e.tree, count.tree]

def trees : List Expression → List SyntaxTree
  | [] => []
  | e :: es => e.tree :: trees es

end

/-! ### Numbers of children -/

mutual

/-- No node needs more children than 16 bits count. -/
def Fits : Expression → Prop
  | .literal _ _ => True
  | .ident _ => True
  | .unary _ e => e.Fits
  | .binary _ l r => l.Fits ∧ r.Fits
  | .call f args => f.Fits ∧ AllFit args ∧ args.length < 2 ^ 16
  | .field e _ => e.Fits
  | .tupleIndex e _ => e.Fits
  | .index e i is => e.Fits ∧ i.Fits ∧ AllFit is ∧ is.length + 2 < 2 ^ 16
  | .propagate e => e.Fits
  | .cast e _ => e.Fits
  | .tuple es => AllFit es ∧ es.length < 2 ^ 16
  | .array es => AllFit es ∧ es.length < 2 ^ 16
  | .repeated e count => e.Fits ∧ count.Fits

def AllFit : List Expression → Prop
  | [] => True
  | e :: es => e.Fits ∧ AllFit es

end

theorem allFit_iff {es : List Expression} : AllFit es ↔ ∀ e ∈ es, e.Fits := by
  induction es with
  | nil => simp [AllFit]
  | cons e es ih => simp [AllFit, ih]

theorem trees_eq_map (es : List Expression) : trees es = es.map tree := by
  induction es with
  | nil => rfl
  | cons e es ih => rw [trees, ih, List.map_cons]

theorem length_trees (es : List Expression) : (trees es).length = es.length := by
  rw [trees_eq_map, List.length_map]

/-! ### Induction -/

/-- Induction over expressions, the elements of lists included. -/
@[elab_as_elim]
theorem induct {P : Expression → Prop} (literal : ∀ k text, P (.literal k text))
    (ident : ∀ text, P (.ident text)) (unary : ∀ op e, P e → P (.unary op e))
    (binary : ∀ op l r, P l → P r → P (.binary op l r))
    (call : ∀ f args, P f → (∀ a ∈ args, P a) → P (.call f args))
    (field : ∀ e f, P e → P (.field e f)) (tupleIndex : ∀ e text, P e → P (.tupleIndex e text))
    (index : ∀ e i is, P e → P i → (∀ x ∈ is, P x) → P (.index e i is))
    (propagate : ∀ e, P e → P (.propagate e)) (cast : ∀ e type, P e → P (.cast e type))
    (tuple : ∀ es, (∀ e ∈ es, P e) → P (.tuple es)) (array : ∀ es, (∀ e ∈ es, P e) → P (.array es))
    (repeated : ∀ e count, P e → P count → P (.repeated e count)) (e : Expression) : P e := by
  refine Expression.rec (motive_1 := P) (motive_2 := fun es => ∀ e ∈ es, P e) literal ident unary
    binary call field tupleIndex index propagate cast tuple array repeated ?_ ?_ e
  · exact fun e he => absurd he List.not_mem_nil
  · intro e es he hes x hx
    rcases List.mem_cons.mp hx with rfl | hx
    · exact he
    · exact hes x hx

end Expression

/-! ### Binding powers -/

/-- The binding powers follow the documented table. -/
theorem infixBindingPower_eq (k : Token.Kind) : infixBindingPower k =
    if precedence k = 0 then (-1, -1)
    else if isRightAssociative k then (10, 9)
    else ((precedence k : ℤ), (precedence k : ℤ) + 1) := by
  cases k <;> rfl

theorem infix_left (op : InfixOperator) : (infixBindingPower op).1 = precedence op := by
  obtain ⟨k, hk⟩ := op
  rw [infixBindingPower_eq, if_neg hk.ne']
  split
  · next hright =>
    have heq : precedence k = 10 := of_decide_eq_true hright
    simp [heq]
  · rfl

/-- Above assignments there is room for two binding powers. -/
theorem precedence_cases (op : InfixOperator) :
    (isRightAssociative op = true ∧ precedence op = 10 ∧ (infixBindingPower op).2 = 9) ∨
      (isRightAssociative op = false ∧ 20 ≤ precedence op ∧ precedence op ≤ 100 ∧
        (infixBindingPower op).2 = precedence op + 1) := by
  obtain ⟨k, hk⟩ := op
  revert hk
  cases k <;> simp [precedence, isRightAssociative, infixBindingPower]

theorem left_of_any (k : Token.Kind) : (infixBindingPower k).1 = -1 ∨ 10 ≤ (infixBindingPower k).1 := by
  cases k <;> simp [infixBindingPower]

namespace Expression

theorem right_le (op : InfixOperator) : (infixBindingPower op).2 ≤ rightPrecedence op := by
  unfold rightPrecedence
  rcases precedence_cases op with ⟨hr, hp, hbp⟩ | ⟨hl, hp, -, hbp⟩
  · rw [if_pos hr]
    omega
  · rw [hl, if_neg Bool.false_ne_true]
    omega

theorem le_left (op : InfixOperator) : Parser.precedence op ≤ leftPrecedence op := by
  unfold leftPrecedence
  split <;> omega

end Expression

end Eter.Parser
