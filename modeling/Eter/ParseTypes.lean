import Eter.ParserState

/-!
# Types and generic parameters
-/

namespace Eter.Parser

def parseTupleType (n : ℕ) (rec : Rec) : ParserM NodeIndex := do
  let start := (← advance).tokenSpan
  let types ← parseCommaSeparated n [] .r_paren (rec .type)
  let close := (← expect .r_paren .ExpectedTupleTypeClose "").tokenSpan
  alloc .TupleType ⟨start.start, close.end⟩ types 0 0

def parseNamedType (n : ℕ) : ParserM NodeIndex := do
  if !(← check .identifier) && !(← check .kw_Self) then
    addError (← peekToken).tokenSpan .ExpectedTypeName
    makeErrorNode (← peekToken).tokenSpan
  else
    let full := (← advance).tokenSpan
    let path ← parsePathSegments n full
    allocLeaf .NamedType path.2 (← internText path.2)

/-- `parseConstExpr` is `parseExpr`. -/
def parseConstExpr (rec : Rec) : ParserM NodeIndex := rec (.expr 0)

def parseArrayType (rec : Rec) : ParserM NodeIndex := do
  let start := (← advance).tokenSpan
  let element ← rec .type
  let _ ← expect .semi .ExpectedArrayTypeSemi ""
  let size ← parseConstExpr rec
  let close := (← expect .r_square .ExpectedArrayTypeClose "").tokenSpan
  alloc .ArrayType ⟨start.start, close.end⟩ [element, size] 0 0

/-- The diagnostic of a tensor whose list of dimensions is empty. -/
def requireDim (empty : Bool) : ParserM Unit := do
  if empty then addError (← peekToken).tokenSpan .ExpectedTensorLitDim else pure ()

def parseTensorType (n : ℕ) (rec : Rec) : ParserM NodeIndex := do
  let start := (← advance).tokenSpan
  let _ ← expect .l_square .ExpectedTensorOpen ""
  let element ← rec .type
  let _ ← expect .semi .ExpectedTensorTypeSemi ""
  let children ← parseCommaSeparated n [element] .r_square (parseConstExpr rec)
  requireDim (children.length = 1)
  let close := (← expect .r_square .ExpectedTensorTypeClose "").tokenSpan
  alloc .TensorType ⟨start.start, close.end⟩ children 0 0

def parseType (n : ℕ) (rec : Rec) : ParserM NodeIndex := do
  if ← check .l_paren then parseTupleType n rec
  else if ← check .l_square then parseArrayType rec
  else if ← check .kw_tensor then parseTensorType n rec
  else parseNamedType n

/-! ### Generics -/

def parseBound (rec : Rec) : ParserM NodeIndex := do
  if ← consume .colon then rec .type else pure NullNode

def parseGenericParam (rec : Rec) : ParserM NodeIndex := do
  let startPos := (← peekToken).tokenSpan.start
  if !(← check .identifier) then
    addError (← peekToken).tokenSpan .ExpectedTypeParam
    makeErrorNode (← peekToken).tokenSpan
  else
    let name ← internText (← advance).tokenSpan
    let bound ← parseBound rec
    alloc .GenericParam ⟨startPos, (← previous).tokenSpan.end⟩ [bound] name 0

def parseGenericList (n : ℕ) (rec : Rec) : ParserM (List NodeIndex) := do
  if ← check .greater then pure []
  else
    let first ← parseGenericParam rec
    parseMore n [first] (fun k => k = .greater) (parseGenericParam rec)

def parseGenericParams (n : ℕ) (rec : Rec) : ParserM NodeIndex := do
  if !(← check .less) then pure NullNode
  else
    let start := (← advance).tokenSpan
    let params ← parseGenericList n rec
    let close := (← expect .greater .ExpectedGreaterThan "").tokenSpan
    alloc .GenericParamList ⟨start.start, close.end⟩ params 0 0

end Eter.Parser
