import Eter.ParseExprs

/-!
# Statements, blocks, and the expressions that contain them
-/

namespace Eter.Parser
open NodePool

/-- The diagnostic of a missing semicolon behind the previous token. -/
def missingSemi (loc : Span) (next : Token) (context noteText : String) : Diag.PhaseDiagnostic :=
  let d := arg (arg (diag loc .ExpectedSemi) "context" context) "found"
    (getTokenName next.tokenKind)
  label (note (help d "add `;` here") noteText) next.tokenSpan "unexpected token"

def requireSemi (atEnd : Bool) (context noteText : String) : ParserM Unit := do
  if ← consume .semi then pure ()
  else
    let prev := (← previous).tokenSpan
    let next ← peekToken
    report (missingSemi (if atEnd then ⟨prev.end, prev.end⟩ else prev) next context noteText)

def parseExprStmt (rec : Rec) : ParserM NodeIndex := do
  let expr ← rec (.expr 0)
  if (← kindOf expr) = .Error then
    synchronize
    pure expr
  else
    requireSemi true "after expression" "in Eter, expression statements must end with `;`"
    pure expr

def parseBadStmt (tok : Token) : ParserM NodeIndex := do
  addError tok.tokenSpan .ExpectedStmt
  synchronize
  makeErrorNode tok.tokenSpan

def parseLetType (rec : Rec) : ParserM (List NodeIndex) := do
  if ← consume .colon then return [← rec .type] else pure []

def parseLetInit (rec : Rec) : ParserM (List NodeIndex) := do
  if ← consume .eq then return [← rec (.expr 0)] else pure []

/-- Whether the last of the children is an error node. -/
def endsInError (children : List NodeIndex) : ParserM Bool := do
  match children.getLast? with
  | some i => return (← kindOf i) = .Error
  | none => pure false

def resyncLet : ParserM Unit := do
  skipUntil fun k => k = .semi || k = .r_brace
  let _ ← consume .semi

def closeLet (children : List NodeIndex) : ParserM Unit := do
  if ← endsInError children then resyncLet
  else requireSemi false "in let statement" "all statements must end with `;` in Eter"

def parseLetStmt (rec : Rec) : ParserM NodeIndex := do
  let start := (← expect .kw_let .ExpectedKeyword "").tokenSpan
  let letRegime ← parseRegime
  let name ← expectName .identifier "variable"
  let type ← parseLetType rec
  let init ← parseLetInit rec
  closeLet (type ++ init)
  alloc .LetStmt ⟨start.start, (← previous).tokenSpan.end⟩ (type ++ init)
    (makePayload name letRegime) 0

def parseRetStmt (rec : Rec) : ParserM NodeIndex := do
  let start := (← expect .kw_ret .ExpectedKeyword "").tokenSpan
  let retExpr ← rec (.expr 0)
  let close := (← expect .semi .ExpectedSemi "after expression").tokenSpan
  alloc .RetStmt ⟨start.start, close.end⟩ [retExpr] 0 0

/-- The expression of a header: a brace behind it opens the block. -/
def parseHeaderExpr (rec : Rec) : ParserM NodeIndex := withStructLit false (rec (.expr 0))

def parseElse (rec : Rec) : ParserM (List NodeIndex) := do
  if ← check .kw_else then
    let _ ← advance
    if ← check .kw_if then return [← rec .ifExpr] else return [← rec .block]
  else pure []

def parseIfExpr (rec : Rec) : ParserM NodeIndex := do
  let start := (← expect .kw_if .ExpectedKeyword "").tokenSpan
  let cond ← parseHeaderExpr rec
  let body ← rec .block
  let other ← parseElse rec
  alloc .IfExpr ⟨start.start, (← previous).tokenSpan.end⟩ (cond :: body :: other) 0 0

def parseWhileStmt (rec : Rec) : ParserM NodeIndex := do
  let start := (← expect .kw_while .ExpectedKeyword "").tokenSpan
  let cond ← parseHeaderExpr rec
  let body ← rec .block
  alloc .WhileStmt ⟨start.start, (← previous).tokenSpan.end⟩ [cond, body] 0 0

def parseForStmt (rec : Rec) : ParserM NodeIndex := do
  let start := (← expect .kw_for .ExpectedKeyword "").tokenSpan
  let loopRegime ← parseRegime
  let name ← expectName .identifier "loop variable"
  let _ ← expect .kw_in_ .ExpectedKeyword ""
  let iterable ← parseHeaderExpr rec
  let body ← rec .block
  alloc .ForStmt ⟨start.start, (← spanOf body).end⟩ [iterable, body]
    (makePayload name loopRegime) 0

/-- `break` and `continue`. -/
def parseJumpStmt (kind : NodeKind) : ParserM NodeIndex := do
  let tok ← advance
  let _ ← expect .semi .ExpectedBreakOrContinueSemi ""
  allocLeaf kind tok.tokenSpan 0

def parseBreakStmt : ParserM NodeIndex := parseJumpStmt .BreakStmt

def parseContinueStmt : ParserM NodeIndex := parseJumpStmt .ContinueStmt

/-- The diagnostic has no `found` argument. -/
def openUnsafe : ParserM Unit := do
  if ← consume .l_brace then pure ()
  else
    countStray .l_brace
    slip .bareUnsafe
    report (arg (arg (diag (← peekToken).tokenSpan .ExpectedOpen) "tok" "\x7b") "context"
      "to start unsafe block body")

def parseUnsafeBlock (n : ℕ) (rec : Rec) : ParserM NodeIndex := do
  let start := (← expect .kw_unsafe_ .ExpectedKeyword "").tokenSpan
  openUnsafe
  let children ← parseUntil n [] .r_brace (rec .stmt)
  let close := (← expect .r_brace .ExpectedClose "to close unsafe block").tokenSpan
  alloc .UnsafeBlock ⟨start.start, close.end⟩ children 0 0

def closeArm : ParserM Unit := do
  if ← consume .comma then pure ()
  else
    let _ ← consume .semi

def parseMatchArm (rec : Rec) : ParserM NodeIndex := do
  let pat ← rec .pat
  let _ ← expect .fat_arrow .ExpectedFatArrow ""
  let value ← rec (.expr 0)
  closeArm
  alloc .MatchArm ⟨(← spanOf pat).start, (← spanOf value).end⟩ [pat, value] 0 0

def parseMatchExpr (n : ℕ) (rec : Rec) : ParserM NodeIndex := do
  let start := (← expect .kw_match .ExpectedKeyword "").tokenSpan
  let scrutinee ← parseHeaderExpr rec
  let _ ← expect .l_brace .ExpectedOpen "to start match body"
  let arms ← parseUntil n [] .r_brace (parseMatchArm rec)
  let close := (← expect .r_brace .ExpectedClose "to close match body").tokenSpan
  alloc .MatchExpr ⟨start.start, close.end⟩ (scrutinee :: arms) 0 0

def parseBlockExpr (n : ℕ) (rec : Rec) : ParserM NodeIndex := do
  let start := (← expect .l_brace .ExpectedOpen "to start block").tokenSpan
  let children ← parseUntil n [] .r_brace (rec .stmt)
  let close := (← expect .r_brace .ExpectedClose "to close block").tokenSpan
  alloc .BlockExpr ⟨start.start, close.end⟩ children 0 0

/-! ### Dispatch -/

def isPrefixOperator (k : Token.Kind) : Bool := k = .bang || k = .minus || k = .amp

def parsePrefixExpr (n : ℕ) (rec : Rec) : ParserM NodeIndex := do
  let tok ← peekToken
  if isLiteral tok.tokenKind then
    let _ ← advance
    parseLitExpr tok
  else if isPrefixOperator tok.tokenKind then parseUnaryExpr rec tok
  else
    match tok.tokenKind with
    | .identifier => parseNameExpr n rec tok
    | .l_paren => parseParenExpr n rec tok
    | .l_square => parseArrayLitExpr n rec
    | .kw_if => rec .ifExpr
    | .kw_while => parseWhileStmt rec
    | .kw_match => parseMatchExpr n rec
    | .kw_unsafe_ => parseUnsafeBlock n rec
    | .l_brace => rec .block
    | .kw_tensor => parseTensorLitExpr n rec
    | .star => parseStarExpr rec tok
    | _ => parseBadExpr tok

def parseExpr (n : ℕ) (rec : Rec) (minBP : ℤ) : ParserM NodeIndex := do
  let lhs ← parsePrefixExpr n rec
  iterate (infixTurn n rec minBP) n lhs

/-- The tokens that start an expression statement. -/
def startsExprStmt (k : Token.Kind) : Bool :=
  isLiteral k || isPrefixOperator k || k = .identifier || k = .l_paren || k = .l_square ||
  k = .star || k = .kw_tensor || k = .kw_match

def parseStmt (n : ℕ) (rec : Rec) : ParserM NodeIndex := do
  let tok ← peekToken
  if startsExprStmt tok.tokenKind then parseExprStmt rec
  else
    match tok.tokenKind with
    | .kw_let => parseLetStmt rec
    | .kw_if => rec .ifExpr
    | .kw_for => parseForStmt rec
    | .kw_while => parseWhileStmt rec
    | .l_brace => rec .block
    | .kw_ret => parseRetStmt rec
    | .kw_break => parseBreakStmt
    | .kw_continue => parseContinueStmt
    | .kw_unsafe_ => parseUnsafeBlock n rec
    | _ => parseBadStmt tok

end Eter.Parser
