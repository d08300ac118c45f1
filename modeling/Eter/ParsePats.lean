import Eter.ParserState

/-!
# Patterns
-/

namespace Eter.Parser

def isLiteral (k : Token.Kind) : Bool :=
  k = .integer_literal || k = .float_literal || k = .char_literal || k = .string_literal ||
  k = .kw_true || k = .kw_false

def parseFieldPat (rec : Rec) : ParserM NodeIndex := do
  if !(← check .identifier) then
    let span := (← peekToken).tokenSpan
    addError span .ExpectedFieldPatName
    makeErrorNode span
  else
    let nameTok ← advance
    let name ← internText nameTok.tokenSpan
    if ← consume .colon then
      let pat ← rec .pat
      alloc .FieldPat ⟨nameTok.tokenSpan.start, (← spanOf pat).end⟩ [pat] name 0
    else allocLeaf .FieldPat nameTok.tokenSpan name

def parseStructPat (n : ℕ) (rec : Rec) (name : InternedStr) (start : Span) :
    ParserM NodeIndex := do
  let _ ← advance
  let fields ← parseCommaSeparated n [] .r_brace (parseFieldPat rec)
  let close := (← expect .r_brace .ExpectedStructPatClose "").tokenSpan
  alloc .StructPat ⟨start.start, close.end⟩ fields name 0

def parseTuplePat (n : ℕ) (rec : Rec) (name : InternedStr) (start : Span) :
    ParserM NodeIndex := do
  let _ ← advance
  let pats ← parseCommaSeparated n [] .r_paren (rec .pat)
  let close := (← expect .r_paren .ExpectedTuplePatClose "").tokenSpan
  alloc .TuplePat ⟨start.start, close.end⟩ pats name 0

/-- A pattern that starts with a name: a wildcard, a variant path, or a binding. -/
def parseNamePat (n : ℕ) (rec : Rec) (tok : Token) : ParserM NodeIndex := do
  if (← textOf tok.tokenSpan) = ascii "_" then
    let _ ← advance
    allocLeaf .WildcardPat tok.tokenSpan 0
  else
    let _ ← advance
    let path ← parsePathSegments n tok.tokenSpan
    let name ← internText path.2
    if ← check .l_paren then parseTuplePat n rec name path.2
    else if ← check .l_brace then parseStructPat n rec name path.2
    else allocLeaf .IdentPat path.2 (NodePool.makePayload name .None)

def parseLiteralPat (tok : Token) : ParserM NodeIndex := do
  let _ ← advance
  allocLeaf .LiteralPat tok.tokenSpan (← internText tok.tokenSpan)

/-- The token is dropped whatever it is. -/
def parseBadPat (tok : Token) : ParserM NodeIndex := do
  addError tok.tokenSpan .ExpectedPattern
  skip
  makeErrorNode tok.tokenSpan

def parsePat (n : ℕ) (rec : Rec) : ParserM NodeIndex := do
  let tok ← peekToken
  if tok.tokenKind = .identifier then parseNamePat n rec tok
  else if tok.tokenKind = .l_paren then parseTuplePat n rec NullStr tok.tokenSpan
  else if isLiteral tok.tokenKind then parseLiteralPat tok
  else parseBadPat tok

end Eter.Parser
