import Eter.Layout
import Eter.PoolRecords

/-!
# The schema of the tree

Each kind of node has a layout of child categories, as `NodeKinds.def` documents it. A category is
a set of node kinds; `Error` stands in most of them, and three categories admit `NullNode`. A
function declaration without a body is a method signature of a trait, and nothing else.
-/

namespace Eter.Parser
open Layout

inductive Cat where
  | doc | fileDoc | genericParamList | genericParam | paramList | param | structField | variant
  | decl | fnSig | fnDef | block | body | elseBranch | ifExpr | stmt | expr | type | traitRef
  | bound | pat | fieldPat | fieldInit | matchArm | argList | sourceFile
  deriving DecidableEq, Repr

def declKinds : List NodeKind :=
  [.FnDecl, .StructDecl, .EnumDecl, .UnionDecl, .ModDecl, .ModDeclFile, .UseDecl, .ConstDecl,
    .TraitDecl, .ImplDecl, .Error]

/-- Expressions, with loops among them. -/
def exprKinds : List NodeKind :=
  [.UnsafeBlock, .BlockExpr, .IfExpr, .MatchExpr, .BinaryExpr, .UnaryExpr, .CastExpr,
    .ProjAssignExpr, .CallExpr, .IndexExpr, .TensorIndexExpr, .FieldExpr, .TupleIndexExpr,
    .StructLitExpr, .ArrayLitExpr, .ArrayRepeatExpr, .TensorLitExpr, .TupleExpr, .IdentExpr,
    .PathExpr, .LitExpr, .PropagateExpr, .WhileStmt, .Error]

/-- Statements; an expression statement is its expression. -/
def stmtKinds : List NodeKind :=
  [.LetStmt, .RetStmt, .ForStmt, .BreakStmt, .ContinueStmt] ++ exprKinds

def typeKinds : List NodeKind := [.NamedType, .ArrayType, .TensorType, .TupleType, .Error]

def patKinds : List NodeKind :=
  [.WildcardPat, .LiteralPat, .IdentPat, .StructPat, .TuplePat, .Error]

namespace Cat

def kinds : Cat → List NodeKind
  | doc => [.DocComment]
  | fileDoc => [.FileDocComment]
  | genericParamList => [.GenericParamList]
  | genericParam => [.GenericParam, .Error]
  | paramList => [.ParamList]
  | param => [.Param]
  | structField => [.StructField, .Error]
  | variant => [.EnumVariantUnit, .EnumVariantTuple, .EnumVariantStruct, .Error]
  | decl => declKinds
  | fnSig => [.FnDecl]
  | fnDef => [.FnDecl]
  | block => [.BlockExpr]
  | body => [.BlockExpr]
  | elseBranch => [.BlockExpr, .IfExpr]
  | ifExpr => [.IfExpr]
  | stmt => stmtKinds
  | expr => exprKinds
  | type => typeKinds
  | traitRef => typeKinds
  | bound => typeKinds
  | pat => patKinds
  | fieldPat => [.FieldPat, .Error]
  | fieldInit => [.FieldInit, .Error]
  | matchArm => [.MatchArm]
  | argList => [.ArgList]
  | sourceFile => [.SourceFile]

/-- A method without body, an inherent implementation, a type parameter without bound. -/
def nullable (c : Cat) : Bool := c = body || c = traitRef || c = bound

/-- Whether a node of kind `k` is of the category; `bodyless` says that its last child is
`NullNode`. -/
def admits (c : Cat) (k : NodeKind) (bodyless : Bool) : Bool :=
  c.kinds.contains k && (k != .FnDecl || bodyless == (c == fnSig))

/-- Every node of the one category is of the other. -/
def within (c c' : Cat) : Bool :=
  c.kinds.all c'.kinds.contains && (c == fnSig) == (c' == fnSig) && (!c.nullable || c'.nullable)

theorem admits_of_within {c c' : Cat} (h : c.within c' = true) {k : NodeKind} {l : Bool}
    (hk : c.admits k l = true) : c'.admits k l = true := by
  simp only [within, Bool.and_eq_true, List.all_eq_true, beq_iff_eq] at h
  simp only [admits, Bool.and_eq_true] at hk ⊢
  obtain ⟨⟨hkinds, hsig⟩, -⟩ := h
  refine ⟨hkinds k (by simpa using hk.1), ?_⟩
  rw [← hsig]
  exact hk.2

theorem nullable_of_within {c c' : Cat} (h : c.within c' = true) (hc : c.nullable = true) :
    c'.nullable = true := by
  simp only [within, Bool.and_eq_true] at h
  simpa [hc] using h.2

end Cat

/-- The layout that `NodeKinds.def` gives, with generic parameters behind the docs. -/
def layoutOf : NodeKind → List (Piece Cat)
  | .Error => []
  | .SourceFile => [.many .fileDoc, .many .decl]
  | .ArgList => [.many .expr]
  | .DocComment => []
  | .FileDocComment => []
  | .FnDecl => [.many .doc, .opt .genericParamList, .one .paramList, .opt .type, .one .body]
  | .StructDecl => [.many .doc, .opt .genericParamList, .many .structField]
  | .EnumDecl => [.many .doc, .opt .genericParamList, .many .variant]
  | .UnionDecl => [.many .doc, .opt .genericParamList, .many .structField]
  | .ModDecl => [.many .doc, .many .decl]
  | .ModDeclFile => [.many .doc]
  | .UseDecl => [.many .doc]
  | .ConstDecl => [.many .doc, .one .type, .one .expr]
  | .TraitDecl => [.many .doc, .opt .genericParamList, .many .fnSig]
  | .ImplDecl =>
    [.many .doc, .opt .genericParamList, .one .traitRef, .one .type, .many .fnDef]
  | .StructField => [.one .type]
  | .EnumVariantUnit => [.opt .expr]
  | .EnumVariantTuple => [.many .type]
  | .EnumVariantStruct => [.many .structField]
  | .Param => [.one .type]
  | .ParamList => [.many .param]
  | .GenericParam => [.one .bound]
  | .GenericParamList => [.many .genericParam]
  | .GenericArgList => [.many .type]
  | .LetStmt => [.opt .type, .opt .expr]
  | .ExprStmt => [.one .expr]
  | .RetStmt => [.opt .expr]
  | .ForStmt => [.one .expr, .one .block]
  | .WhileStmt => [.one .expr, .one .block]
  | .BreakStmt => []
  | .ContinueStmt => []
  | .UnsafeBlock => [.many .stmt]
  | .BlockExpr => [.many .stmt]
  | .IfExpr => [.one .expr, .one .block, .opt .elseBranch]
  | .MatchExpr => [.one .expr, .many .matchArm]
  | .MatchArm => [.one .pat, .one .expr]
  | .BinaryExpr => [.one .expr, .one .expr]
  | .UnaryExpr => [.one .expr]
  | .CastExpr => [.one .expr, .one .type]
  | .ProjAssignExpr => [.one .expr, .one .expr]
  | .CallExpr => [.one .expr, .one .argList]
  | .IndexExpr => [.one .expr, .one .expr]
  | .TensorIndexExpr => [.one .expr, .one .expr, .one .expr, .many .expr]
  | .FieldExpr => [.one .expr]
  | .TupleIndexExpr => [.one .expr]
  | .StructLitExpr => [.many .fieldInit]
  | .ArrayLitExpr => [.many .expr]
  | .ArrayRepeatExpr => [.one .expr, .one .expr]
  | .TensorLitExpr => [.one .expr, .many .expr]
  | .TupleExpr => [.many .expr]
  | .FieldInit => [.one .expr]
  | .IdentExpr => []
  | .PathExpr => []
  | .LitExpr => []
  | .PropagateExpr => [.one .expr]
  | .NamedType => []
  | .ArrayType => [.one .type, .one .expr]
  | .TensorType => [.one .type, .many .expr]
  | .TupleType => [.many .type]
  | .AttrType => [.one .type]
  | .WildcardPat => []
  | .LiteralPat => []
  | .IdentPat => []
  | .StructPat => [.many .fieldPat]
  | .TuplePat => [.many .pat]
  | .FieldPat => [.opt .pat]

/-! ### Pools that follow the schema -/

def bodyless (kids : List NodeIndex) : Bool := kids.getLast? == some NullNode

/-- The index names a node of the category, or is `NullNode` where the category allows it. -/
def NodePool.IsA (p : NodePool) (c : Cat) : NodeIndex → Prop
  | none => c.nullable = true
  | i => ∃ n, p.get? i = some n ∧ c.admits n.kind (bodyless (p.childrenOf i)) = true

/-- A tensor literal records how many of its children are values, and there is one at least. -/
def countsValues (kind : NodeKind) (payload kids : ℕ) : Prop :=
  kind = .TensorLitExpr →
    1 ≤ NodePool.payloadOp payload ∧ NodePool.payloadOp payload ≤ kids

/-- Tensor types and literals have a dimension. -/
def hasDims (kind : NodeKind) (payload kids : ℕ) : Prop :=
  (kind = .TensorType → 2 ≤ kids) ∧
    (kind = .TensorLitExpr → NodePool.payloadOp payload < kids)

/-- Every node's children follow the layout of its kind. -/
def NodePool.Conforms (p : NodePool) : Prop :=
  ∀ i n, p.get? (some i) = some n →
    Fits p.IsA (layoutOf n.kind) (p.childrenOf (some i)) ∧
      countsValues n.kind n.payload (p.childrenOf (some i)).length

/-- Every node but the sentinel is well formed and has the dimensions it needs. -/
def NodePool.ErrorFree (p : NodePool) : Prop :=
  ∀ i n, 1 ≤ i → p.get? (some i) = some n →
    n.kind ≠ .Error ∧ hasDims n.kind n.payload (p.childrenOf (some i)).length

end Eter.Parser
