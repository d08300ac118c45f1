import Eter.NodePool
import Eter.StringInterner
import Eter.TokenKinds

/-!
# Payload encodings

What a node's payload holds depends on its kind. One table is the one that `NodeData` documents,
the other the one that the allocations of the parser follow.
-/

namespace Eter.Parser

inductive Encoding where
  /-- A name in the low 30 bits and a regime above it. -/
  | packed
  /-- A name in all bits. -/
  | name
  /-- A name in the low 30 bits and the regime `None` above it. -/
  | packedNone
  /-- The kind of an operator token. -/
  | operator
  /-- Nothing: the payload is 0. -/
  | plain
  deriving DecidableEq, Repr

/-- The table of the comment on `NodeData`; its last row is `plain`. -/
def documentedEncoding : NodeKind → Encoding
  | .FnDecl | .LetStmt | .Param | .StructField | .EnumVariantUnit | .EnumVariantTuple
  | .EnumVariantStruct | .IdentPat | .ForStmt => .packed
  | .StructDecl | .EnumDecl | .UnionDecl | .ModDecl | .ConstDecl | .UseDecl | .TraitDecl
  | .IdentExpr | .PathExpr | .LitExpr | .FieldExpr | .TupleIndexExpr | .StructLitExpr
  | .FieldInit | .NamedType | .AttrType | .LiteralPat | .StructPat | .TuplePat | .FieldPat => .name
  | .BinaryExpr | .UnaryExpr => .operator
  | _ => .plain

/-- The table that the allocations follow, but for tensors, which store how many values they have. -/
def encodingOf : NodeKind → Encoding
  | .LitExpr | .FieldExpr => .packedNone
  | .ModDeclFile | .GenericParam | .DocComment | .FileDocComment => .name
  | k => documentedEncoding k

/-- Kinds whose name may be written over several tokens. -/
def mayHavePath : NodeKind → Bool
  | .PathExpr | .StructLitExpr | .NamedType | .IdentPat | .TuplePat | .StructPat | .UseDecl => true
  | _ => false

/-- The identifier of the text, or that of no string. -/
def Identifies (strings : StringInterner) (id : InternedStr) : Option Bytes → Prop
  | some text => strings.get? id = some text
  | none => id = NullStr

/-- The payload holds the name and the word, a regime or an operator, as the encoding says. -/
def Follows (strings : StringInterner) (payload : ℕ) (name : Option Bytes) (word : ℕ) :
    Encoding → Prop
  | .packed => ∃ id r, Identifies strings id name ∧ r.value = word ∧
      payload = NodePool.makePayload id r
  | .name => Identifies strings payload name
  | .packedNone => ∃ id, Identifies strings id name ∧ payload = NodePool.makePayload id .None
  | .operator => payload = NodePool.makeOpPayload word
  | .plain => payload = 0

variable {strings : StringInterner} {id : ℕ} {name : Option Bytes}

theorem Identifies.lt (h : Identifies strings id name) (hsize : strings.size < 2 ^ 30) :
    id < 2 ^ 30 := by
  cases name with
  | none =>
    obtain rfl : id = NullStr := h
    decide
  | some text =>
    have htext : strings.get? id = some text := h
    have hlt := (List.getElem?_eq_some_iff.mp htext).1
    unfold StringInterner.size at hsize
    omega

/-- A name with the regime `None` above it is no name. -/
theorem not_identifies_makePayload (hsize : strings.size < 2 ^ 30) (id : ℕ) :
    ¬ Identifies strings (NodePool.makePayload id .None) name := by
  intro h
  have hlt := h.lt hsize
  have hvalue : Regime.None.value = 3 := rfl
  unfold NodePool.makePayload at hlt
  rw [hvalue] at hlt
  omega

end Eter.Parser
