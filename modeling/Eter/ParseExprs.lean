import Eter.ParseTypes
import Eter.ParsePats

/-!
# Expressions

A Pratt parser: prefix forms, then postfix forms, then infix operators by binding power. A node's
span is computed from its children's spans in the pool.
-/

namespace Eter.Parser
open NodePool Stateful

def infixBindingPower : Token.Kind → ℤ × ℤ
  | .eq => (10, 9)
  | .plus_eq => (10, 9)
  | .minus_eq => (10, 9)
  | .star_eq => (10, 9)
  | .slash_eq => (10, 9)
  | .percent_eq => (10, 9)
  | .amp_eq => (10, 9)
  | .pipe_eq => (10, 9)
  | .caret_eq => (10, 9)
  | .less_less_eq => (10, 9)
  | .greater_greater_eq => (10, 9)
  | .pipe_pipe => (20, 21)
  | .amp_amp => (30, 31)
  | .eq_eq => (40, 41)
  | .bang_eq => (40, 41)
  | .less => (40, 41)
  | .greater => (40, 41)
  | .less_eq => (40, 41)
  | .greater_eq => (40, 41)
  | .pipe => (50, 51)
  | .caret => (60, 61)
  | .amp => (70, 71)
  | .less_less => (80, 81)
  | .greater_greater => (80, 81)
  | .plus => (90, 91)
  | .minus => (90, 91)
  | .star => (100, 101)
  | .slash => (100, 101)
  | .percent => (100, 101)
  | _ => (-1, -1)

def prefixBindingPower : Token.Kind → ℤ
  | .bang => 110
  | .minus => 110
  | .amp => 110
  | .star => 110
  | _ => -1

def parseLitExpr (tok : Token) : ParserM NodeIndex := do
  allocLeaf .LitExpr tok.tokenSpan (makePayload (← internText tok.tokenSpan) .None)

/-! ### Struct literals and names -/

def parseFieldInit (rec : Rec) : ParserM NodeIndex := do
  if !(← check .identifier) then
    let span := (← peekToken).tokenSpan
    addError span .ExpectedFieldInitName
    makeErrorNode span
  else
    let nameTok ← advance
    let name ← internText nameTok.tokenSpan
    if ← consume .colon then
      let init ← rec (.expr 0)
      alloc .FieldInit ⟨nameTok.tokenSpan.start, (← spanOf init).end⟩ [init] name 0
    else
      let ident ← allocLeaf .IdentExpr nameTok.tokenSpan name
      alloc .FieldInit nameTok.tokenSpan [ident] name 0

def parseStructLitExpr (n : ℕ) (rec : Rec) (name : InternedStr) (start : Span) :
    ParserM NodeIndex := do
  let _ ← advance
  withStructLit true do
    let fields ← parseCommaSeparated n [] .r_brace (parseFieldInit rec)
    let close := (← expect .r_brace .ExpectedStructLitClose "").tokenSpan
    alloc .StructLitExpr ⟨start.start, close.end⟩ fields name 0

def structLitAllowed : ParserM Bool := fun s => .ok (s.structLitAllowed, s)

def parseNameExpr (n : ℕ) (rec : Rec) (tok : Token) : ParserM NodeIndex := do
  let _ ← advance
  let path ← parsePathSegments n tok.tokenSpan
  let name ← internText path.2
  if (← structLitAllowed) && (← check .l_brace) then parseStructLitExpr n rec name path.2
  else allocLeaf (if path.1 then .PathExpr else .IdentExpr) path.2 name

/-! ### Brackets -/

def isRParen (k : Token.Kind) : Bool := k = .r_paren

def isRSquare (k : Token.Kind) : Bool := k = .r_square

def parseTupleRest (n : ℕ) (rec : Rec) (tok : Token) (inner : NodeIndex) : ParserM NodeIndex := do
  let elems ← parseMore n [inner] isRParen (rec (.expr 0))
  let close := (← expect .r_paren .ExpectedTupleExprClose "").tokenSpan
  alloc .TupleExpr ⟨tok.tokenSpan.start, close.end⟩ elems 0 0

/-- The unit value, a parenthesised expression, or a tuple. -/
def parseParenExpr (n : ℕ) (rec : Rec) (tok : Token) : ParserM NodeIndex := do
  let _ ← advance
  withStructLit true do
    if ← check .r_paren then
      let close := (← advance).tokenSpan
      alloc .TupleExpr ⟨tok.tokenSpan.start, close.end⟩ [] 0 0
    else
      let inner ← rec (.expr 0)
      if ← check .comma then parseTupleRest n rec tok inner
      else
        let _ ← expect .r_paren .ExpectedParenExprClose ""
        pure inner

def parseArrayRest (n : ℕ) (rec : Rec) (start : Span) (first : NodeIndex) :
    ParserM NodeIndex := do
  if ← consume .semi then
    let count ← parseConstExpr rec
    let close := (← expect .r_square .ExpectedArrayLitClose "").tokenSpan
    alloc .ArrayRepeatExpr ⟨start.start, close.end⟩ [first, count] 0 0
  else
    let elems ← parseMore n [first] isRSquare (rec (.expr 0))
    let close := (← expect .r_square .ExpectedArrayLitClose "").tokenSpan
    alloc .ArrayLitExpr ⟨start.start, close.end⟩ elems 0 0

def parseArrayLitExpr (n : ℕ) (rec : Rec) : ParserM NodeIndex := do
  let start := (← advance).tokenSpan
  withStructLit true do
    if ← check .r_square then
      let close := (← advance).tokenSpan
      alloc .ArrayLitExpr ⟨start.start, close.end⟩ [] 0 0
    else
      let first ← rec (.expr 0)
      parseArrayRest n rec start first

def parseTensorValues (n : ℕ) (rec : Rec) : ParserM (List NodeIndex) :=
  withStructLit true do
    let first ← rec (.expr 0)
    parseMore n [first] (fun k => k = .semi || k = .r_square) (rec (.expr 0))

/-- The number of values is stored in 16 bits. -/
def parseTensorLitExpr (n : ℕ) (rec : Rec) : ParserM NodeIndex := do
  let start := (← advance).tokenSpan
  let _ ← expect .l_square .ExpectedTensorOpen ""
  let values ← parseTensorValues n rec
  let numValues := values.length % 2 ^ 16
  let _ ← expect .semi .ExpectedSemi "in tensor literal"
  let children ← parseCommaSeparated n values .r_square (parseConstExpr rec)
  requireDim (children.length % 2 ^ 16 = numValues)
  let close := (← expect .r_square .ExpectedTensorLitClose "").tokenSpan
  alloc .TensorLitExpr ⟨start.start, close.end⟩ children (makeOpPayload numValues) 0

/-! ### Operators -/

def parseUnaryExpr (rec : Rec) (tok : Token) : ParserM NodeIndex := do
  let _ ← advance
  let operand ← rec (.expr (prefixBindingPower tok.tokenKind))
  alloc .UnaryExpr ⟨tok.tokenSpan.start, (← spanOf operand).end⟩ [operand]
    (makeOpPayload tok.tokenKind.value) 0

/-- `*lhs = rhs` is a projection assignment. -/
def parseStarExpr (rec : Rec) (tok : Token) : ParserM NodeIndex := do
  let _ ← advance
  let operand ← rec (.expr (prefixBindingPower tok.tokenKind))
  if ← consume .eq then
    let rhs ← rec (.expr 0)
    alloc .ProjAssignExpr ⟨tok.tokenSpan.start, (← spanOf rhs).end⟩ [operand, rhs] 0 0
  else
    alloc .UnaryExpr ⟨tok.tokenSpan.start, (← spanOf operand).end⟩ [operand]
      (makeOpPayload tok.tokenKind.value) 0

/-- The tokens an expression that cannot start leaves to the enclosing list. -/
def isSync (k : Token.Kind) : Bool :=
  k = .semi || k = .r_brace || k = .r_paren || k = .r_square || k = .comma

def parseBadExpr (tok : Token) : ParserM NodeIndex := do
  let _ ← if isSync tok.tokenKind then pure () else skip
  addError tok.tokenSpan .ExpectedExpr
  makeErrorNode tok.tokenSpan

/-! ### Postfix forms -/

def parseArgs (n : ℕ) (rec : Rec) : ParserM (List NodeIndex) := do
  if ← check .r_paren then pure []
  else
    let first ← rec (.expr 0)
    parseMore n [first] (fun _ => false) (rec (.expr 0))

def parseArgList (n : ℕ) (rec : Rec) : ParserM NodeIndex := do
  let start := (← expect .l_paren .ExpectedOpen "to start argument list").tokenSpan
  withStructLit true do
    let args ← parseArgs n rec
    let close := (← expect .r_paren .ExpectedArgListClose "").tokenSpan
    alloc .ArgList ⟨start.start, close.end⟩ args 0 0

/-- The bytes before and after the first dot, when a byte follows it. -/
def splitDot : Bytes → Option (Bytes × Bytes)
  | [] => none
  | c :: cs =>
    if c = ch '.' then if cs = [] then none else some ([], cs)
    else (splitDot cs).map fun r => (c :: r.1, r.2)

def dropSuffixF (text : Bytes) : Bytes :=
  if text.getLast? = some (ch 'f') then text.dropLast else text

def allDigits (text : Bytes) : Bool := text.all fun c => ch '0' ≤ c && c ≤ ch '9'

/-- The parts of a float literal behind a dot, `t.0.1`; `none` when there is none to take apart. -/
def floatIndex : ParserM (Option (Token × Bytes × Bytes)) := do
  if ← check .float_literal then
    let tok ← peekToken
    let text ← textOf tok.tokenSpan
    pure ((splitDot text).map fun r => (tok, r.1, dropSuffixF r.2))
  else pure none

def allocTupleIndex (lhs : NodeIndex) (stop : ℕ) (text : Bytes) : ParserM NodeIndex := do
  alloc .TupleIndexExpr ⟨(← spanOf lhs).start, stop⟩ [lhs] (← intern text) 0

def parseFloatIndex (lhs : NodeIndex) (tok : Token) (intPart fracPart : Bytes) :
    ParserM NodeIndex := do
  let _ ← advance
  let lhs ← allocTupleIndex lhs tok.tokenSpan.end intPart
  if fracPart ≠ [] ∧ allDigits fracPart = true then
    allocTupleIndex lhs tok.tokenSpan.end fracPart
  else pure lhs

def parseField (lhs : NodeIndex) : ParserM NodeIndex := do
  let field ← expectAndIntern .identifier .ExpectedFieldName
  alloc .FieldExpr ⟨(← spanOf lhs).start, (← previous).tokenSpan.end⟩ [lhs]
    (makePayload field .None) 0

def parseDot (lhs : NodeIndex) : ParserM NodeIndex := do
  let _ ← advance
  if ← check .integer_literal then
    let idxTok ← advance
    allocTupleIndex lhs idxTok.tokenSpan.end (← textOf idxTok.tokenSpan)
  else
    match ← floatIndex with
    | some r => parseFloatIndex lhs r.1 r.2.1 r.2.2
    | none => parseField lhs

def parsePostfixIndex (n : ℕ) (rec : Rec) (lhs : NodeIndex) : ParserM NodeIndex := do
  let _ ← advance
  let lhsSpan ← spanOf lhs
  let indices ← withStructLit true do
    let first ← rec (.expr 0)
    parseMore n [first] isRSquare (rec (.expr 0))
  let isTensor : Bool := 1 < indices.length
  let close := (← expect .r_square
    (if isTensor then .ExpectedTensorIndexClose else .ExpectedRSquare) "").tokenSpan
  alloc (if isTensor then .TensorIndexExpr else .IndexExpr) ⟨lhsSpan.start, close.end⟩
    (lhs :: indices) 0 0

def parseCall (n : ℕ) (rec : Rec) (lhs : NodeIndex) : ParserM NodeIndex := do
  let args ← parseArgList n rec
  alloc .CallExpr ⟨(← spanOf lhs).start, (← spanOf args).end⟩ [lhs, args] 0 0

def parsePropagate (lhs : NodeIndex) : ParserM NodeIndex := do
  let _ ← advance
  alloc .PropagateExpr ⟨(← spanOf lhs).start, (← previous).tokenSpan.end⟩ [lhs] 0 0

def parseCast (rec : Rec) (lhs : NodeIndex) : ParserM NodeIndex := do
  let _ ← advance
  let type ← rec .type
  alloc .CastExpr ⟨(← spanOf lhs).start, (← spanOf type).end⟩ [lhs, type] 0 0

def postfixTurn (n : ℕ) (rec : Rec) (lhs : NodeIndex) : ParserM (Turn NodeIndex NodeIndex) := do
  match ← peek with
  | .l_paren => return .again (← parseCall n rec lhs)
  | .dot => return .again (← parseDot lhs)
  | .l_square => return .again (← parsePostfixIndex n rec lhs)
  | .question => return .again (← parsePropagate lhs)
  | .kw_as => return .again (← parseCast rec lhs)
  | _ => return .done lhs

def parsePostfixOrCallExpr (n : ℕ) (rec : Rec) (lhs : NodeIndex) : ParserM NodeIndex :=
  iterate (postfixTurn n rec) n lhs

/-! ### The Pratt loop -/

/-- An operator and its right operand; an erroneous operand replaces the whole expression. -/
def parseInfix (rec : Rec) (rightBP : ℤ) (lhs : NodeIndex) :
    ParserM (Turn NodeIndex NodeIndex) := do
  let op ← advance
  let rhs ← rec (.expr rightBP)
  if (← kindOf rhs) = .Error then return .done rhs
  else
    let span : Span := ⟨(← spanOf lhs).start, (← spanOf rhs).end⟩
    return .again (← alloc .BinaryExpr span [lhs, rhs] (makeOpPayload op.tokenKind.value) 0)

def infixTurn (n : ℕ) (rec : Rec) (minBP : ℤ) (lhs : NodeIndex) :
    ParserM (Turn NodeIndex NodeIndex) := do
  let lhs ← parsePostfixOrCallExpr n rec lhs
  let bp := infixBindingPower (← peek)
  if bp.1 < minBP then return .done lhs else parseInfix rec bp.2 lhs

end Eter.Parser
