import Eter.SourceText
import Mathlib.Tactic

/-!
# The node pool

Nodes stand in one array, their children in another; index 0 is a sentinel. A node records where
its children begin and how many there are, the latter in 16 bits. Indices and the identifiers of
strings are 32-bit words of the source and unbounded here; that a payload keeps only 30 bits of an
identifier is part of the model.
-/

namespace Eter.Parser

inductive NodeKind where
  | Error | SourceFile | ArgList | DocComment | FileDocComment | FnDecl | StructDecl | EnumDecl
  | UnionDecl | ModDecl | ModDeclFile | UseDecl | ConstDecl | TraitDecl | ImplDecl | StructField
  | EnumVariantUnit | EnumVariantTuple | EnumVariantStruct | Param | ParamList | GenericParam
  | GenericParamList | GenericArgList | LetStmt | ExprStmt | RetStmt | ForStmt | WhileStmt
  | BreakStmt | ContinueStmt | UnsafeBlock | BlockExpr | IfExpr | MatchExpr | MatchArm
  | BinaryExpr | UnaryExpr | CastExpr | ProjAssignExpr | CallExpr | IndexExpr | TensorIndexExpr
  | FieldExpr | TupleIndexExpr | StructLitExpr | ArrayLitExpr | ArrayRepeatExpr | TensorLitExpr
  | TupleExpr | FieldInit | IdentExpr | PathExpr | LitExpr | PropagateExpr | NamedType
  | ArrayType | TensorType | TupleType | AttrType | WildcardPat | LiteralPat | IdentPat
  | StructPat | TuplePat | FieldPat
  deriving DecidableEq, Repr

inductive Regime where
  | Imm | Mut | Proj | None
  deriving DecidableEq, Repr

def Regime.value (r : Regime) : ℕ := r.ctorIdx

/-- `none` is `NullNode`. -/
abbrev NodeIndex := Option ℕ

abbrev NullNode : NodeIndex := none

abbrev InternedStr := ℕ

def NullStr : InternedStr := 0

structure NodeData where
  kind : NodeKind
  childCount : ℕ
  childrenBegin : ℕ
  payload : ℕ
  flags : ℕ
  deriving DecidableEq, Repr

structure NodePool where
  nodes : List NodeData
  children : List NodeIndex
  spans : List Span
  deriving DecidableEq, Repr

namespace NodePool

def PubFlag : ℕ := 1
def UnsafeFlag : ℕ := 2

/-- The constructor: only the sentinel. -/
def new : NodePool := ⟨[⟨.Error, 0, 0, 0, 0⟩], [], [⟨0, 0⟩]⟩

def alloc (p : NodePool) (kind : NodeKind) (span : Span) (childNodes : List NodeIndex)
    (payload flags : ℕ) : NodeIndex × NodePool :=
  (some p.nodes.length,
    { nodes := p.nodes ++ [⟨kind, childNodes.length % 2 ^ 16, p.children.length, payload, flags⟩]
      children := p.children ++ childNodes
      spans := p.spans ++ [span] })

def allocLeaf (p : NodePool) (kind : NodeKind) (span : Span) (payload : ℕ) :
    NodeIndex × NodePool :=
  p.alloc kind span [] payload 0

def get? (p : NodePool) : NodeIndex → Option NodeData
  | some i => p.nodes[i]?
  | none => none

def spanOf? (p : NodePool) : NodeIndex → Option Span
  | some i => p.spans[i]?
  | none => none

/-- The recorded number of entries of the children array from where the node's children begin. -/
def childrenOf (p : NodePool) (i : NodeIndex) : List NodeIndex :=
  match p.get? i with
  | some n => (p.children.drop n.childrenBegin).take n.childCount
  | none => []

/-- Where the children of the next node begin. -/
def childrenEnd (p : NodePool) (i : ℕ) : ℕ :=
  match p.get? (some (i + 1)) with
  | some n => n.childrenBegin
  | none => p.children.length

/-- The children the node was given, however many they are. -/
def givenTo (p : NodePool) (i : NodeIndex) : List NodeIndex :=
  match i, p.get? i with
  | some i, some n => (p.children.drop n.childrenBegin).take (p.childrenEnd i - n.childrenBegin)
  | _, _ => []

/-- No node was given more children than 16 bits count. -/
def FewChildren (p : NodePool) : Prop := ∀ i, (p.givenTo i).length ≤ 65535

theorem few_of_children_length {p : NodePool} (h : p.children.length ≤ 65535) :
    p.FewChildren := by
  intro i
  unfold givenTo
  split
  · rw [List.length_take, List.length_drop]
    omega
  · simp

/-- The bits above the name hold the regime; the name has 30 bits. -/
def makePayload (name : InternedStr) (r : Regime) : ℕ := r.value * 2 ^ 30 + name % 2 ^ 30

def payloadStr (payload : ℕ) : InternedStr := payload % 2 ^ 30

def payloadRegime (payload : ℕ) : ℕ := payload / 2 ^ 30

def makeOpPayload (tokenKindValue : ℕ) : ℕ := tokenKindValue

def payloadOp (payload : ℕ) : ℕ := payload % 2 ^ 16

theorem payloadStr_makePayload (name : InternedStr) (r : Regime) :
    payloadStr (makePayload name r) = name % 2 ^ 30 := by
  unfold payloadStr makePayload
  rw [Nat.add_comm, Nat.add_mul_mod_self_right, Nat.mod_mod]

theorem payloadRegime_makePayload (name : InternedStr) (r : Regime) :
    payloadRegime (makePayload name r) = r.value := by
  have h : name % 2 ^ 30 < 2 ^ 30 := Nat.mod_lt _ (by norm_num)
  unfold payloadRegime makePayload
  rw [Nat.add_comm, Nat.add_mul_div_right _ _ (by norm_num), Nat.div_eq_of_lt h, Nat.zero_add]

end NodePool

end Eter.Parser
