import Eter.ParseStmts

/-!
# Declarations and source files
-/

namespace Eter.Parser
open NodePool Stateful

/-! ### Functions -/

def isSelfParam (name : InternedStr) : ParserM Bool := do
  let text ← getText name
  let colon ← check .colon
  let rParen ← check .r_paren
  let comma ← check .comma
  pure (text == ascii "self" && !colon && (rParen || comma))

/-- The type of a `self` parameter without annotation. -/
def synthesiseSelf : ParserM NodeIndex := do
  let span := (← previous).tokenSpan
  allocLeaf .NamedType span (← intern (ascii "Self"))

def parseParamType (rec : Rec) (name : InternedStr) : ParserM NodeIndex := do
  if ← isSelfParam name then synthesiseSelf
  else
    let _ ← expect .colon .ExpectedColon "after parameter name"
    rec .type

/-- The tokens behind which `parseParam` always consumes one. -/
def startsParam (k : Token.Kind) : Bool :=
  k = .kw_imm || k = .kw_mut || k = .kw_proj || k = .identifier || k = .colon || k = .l_paren ||
  k = .l_square || k = .kw_tensor || k = .kw_Self

/-- Whether the next token starts no parameter and stands behind a gap in the text. -/
def atGap : ParserM Bool := do
  let next ← peekToken
  pure (!startsParam next.tokenKind && (← previous).tokenSpan.end != next.tokenSpan.start)

def markGap (gap : Bool) : ParserM Unit := if gap then slip .gappedParam else pure ()

def parseParam (rec : Rec) : ParserM NodeIndex := do
  let gap ← atGap
  let startPos := (← peekToken).tokenSpan.start
  let r ← parseRegime
  let name ← expectName .identifier "parameter"
  let type ← parseParamType rec name
  markGap gap
  alloc .Param ⟨startPos, (← previous).tokenSpan.end⟩ [type] (makePayload name r) 0

def parseParams (n : ℕ) (rec : Rec) : ParserM (List NodeIndex) := do
  if ← check .r_paren then pure []
  else
    let first ← parseParam rec
    parseMore n [first] (fun _ => false) (parseParam rec)

def parseParamList (n : ℕ) (rec : Rec) : ParserM NodeIndex := do
  let start := (← expect .l_paren .ExpectedOpen "to start parameter list").tokenSpan
  let children ← parseParams n rec
  let close := (← expect .r_paren .ExpectedClose "to close parameter list").tokenSpan
  alloc .ParamList ⟨start.start, close.end⟩ children 0 0

def reportArrow : ParserM Unit := do
  let tok ← peekToken
  report (arg (diag tok.tokenSpan .ExpectedReturnTypeColon) "found" (getTokenName tok.tokenKind))
  let _ ← advance

def parseReturnType (rec : Rec) : ParserM (List NodeIndex) := do
  if ← consume .colon then return [← rec .type]
  else if ← check .arrow then
    reportArrow
    return [← rec .type]
  else pure []

def parseFnBody (rec : Rec) (expectBody : Bool) : ParserM NodeIndex := do
  if expectBody then rec .block
  else
    let _ ← expect .semi .ExpectedTraitFnSemi ""
    pure NullNode

def consumeUnsafe (flags : ℕ) : ParserM ℕ := do
  if ← consume .kw_unsafe_ then pure (flags ||| UnsafeFlag) else pure flags

/-- The declaration behind `fn`. -/
def parseFnRest (n : ℕ) (rec : Rec) (docs : List NodeIndex) (flags : ℕ) (expectBody : Bool)
    (startPos : ℕ) : ParserM NodeIndex := do
  let returnRegime ← parseRegime
  let name ← expectName .identifier "function"
  let genericParams ← parseGenericParams n rec
  let params ← parseParamList n rec
  let returnType ← parseReturnType rec
  let body ← parseFnBody rec expectBody
  alloc .FnDecl ⟨startPos, (← previous).tokenSpan.end⟩
    (docs ++ pushed genericParams ++ [params] ++ returnType ++ [body])
    (makePayload name returnRegime) flags

def parseFnDecl (n : ℕ) (rec : Rec) (docs : List NodeIndex) (flags : ℕ) (expectBody : Bool) :
    ParserM NodeIndex := do
  let startPos := (← peekToken).tokenSpan.start
  let flags ← consumeUnsafe flags
  let _ ← expect .kw_fn .ExpectedKeyword ""
  parseFnRest n rec docs flags expectBody startPos

/-! ### Structures, enumerations, and unions -/

def parseStructField (rec : Rec) : ParserM NodeIndex := do
  let startPos := (← peekToken).tokenSpan.start
  let r ← parseRegime
  if !(← check .identifier) then
    let span := (← peekToken).tokenSpan
    report (arg (arg (diag span .ExpectedName) "construct" "field") "found"
      (getTokenName (← peek)))
    makeErrorNode ⟨startPos, span.end⟩
  else
    let name ← internText (← advance).tokenSpan
    if ← fieldColon then
      let type ← rec .type
      alloc .StructField ⟨startPos, (← previous).tokenSpan.end⟩ [type] (makePayload name r) 0
    else makeErrorNode ⟨startPos, (← previous).tokenSpan.end⟩
where
  /-- Whether to go on with the type: also without a colon, when the next token may start one. -/
  fieldColon : ParserM Bool := do
    if ← consume .colon then pure true
    else
      let found ← peekToken
      report (arg (arg (diag found.tokenSpan .ExpectedColon) "context" "after field name") "found"
        (getTokenName found.tokenKind))
      check .identifier

def parseTupleVariant (n : ℕ) (rec : Rec) (startPos : ℕ) (name : InternedStr) :
    ParserM NodeIndex := do
  let types ← parseCommaSeparated n [] .r_paren (rec .type)
  let close := (← expect .r_paren .ExpectedClose "to close tuple variant").tokenSpan
  alloc .EnumVariantTuple ⟨startPos, close.end⟩ types (makePayload name .None) 0

def parseStructVariant (n : ℕ) (rec : Rec) (startPos : ℕ) (name : InternedStr) :
    ParserM NodeIndex := do
  let fields ← parseCommaSeparated n [] .r_brace (parseStructField rec)
  let close := (← expect .r_brace .ExpectedClose "to close struct variant").tokenSpan
  alloc .EnumVariantStruct ⟨startPos, close.end⟩ fields (makePayload name .None) 0

def parseEnumVariant (n : ℕ) (rec : Rec) : ParserM NodeIndex := do
  let startPos := (← peekToken).tokenSpan.start
  if !(← check .identifier) then
    let span := (← peekToken).tokenSpan
    report (arg (arg (diag span .ExpectedName) "construct" "enum variant") "found"
      (getTokenName (← peek)))
    makeErrorNode span
  else
    let name ← internText (← advance).tokenSpan
    if ← consume .l_paren then parseTupleVariant n rec startPos name
    else if ← consume .l_brace then parseStructVariant n rec startPos name
    else if ← consume .eq then
      let discriminant ← parseConstExpr rec
      alloc .EnumVariantUnit ⟨startPos, (← previous).tokenSpan.end⟩ [discriminant]
        (makePayload name .None) 0
    else
      allocLeaf .EnumVariantUnit ⟨startPos, (← previous).tokenSpan.end⟩ (makePayload name .None)

/-- What the bodies of structures, enumerations, and unions share. -/
def parseBodyDecl (keyword : Token.Kind) (kind : NodeKind) (construct : String) (n : ℕ) (rec : Rec)
    (parseElement : ParserM NodeIndex) (docs : List NodeIndex) (flags : ℕ) :
    ParserM NodeIndex := do
  let start := (← expect keyword .ExpectedKeyword "").tokenSpan
  let name ← expectName .identifier construct
  let genericParams ← parseGenericParams n rec
  let _ ← expect .l_brace .ExpectedOpen ("to start " ++ construct ++ " body")
  let children ← parseCommaSeparated n (docs ++ pushed genericParams) .r_brace parseElement
  let close := (← expect .r_brace .ExpectedClose ("to close " ++ construct ++ " body")).tokenSpan
  alloc kind ⟨start.start, close.end⟩ children name flags

def parseStructDecl (n : ℕ) (rec : Rec) : List NodeIndex → ℕ → ParserM NodeIndex :=
  parseBodyDecl .kw_struct .StructDecl "struct" n rec (parseStructField rec)

def parseEnumDecl (n : ℕ) (rec : Rec) : List NodeIndex → ℕ → ParserM NodeIndex :=
  parseBodyDecl .kw_enum .EnumDecl "enum" n rec (parseEnumVariant n rec)

def parseUnionDecl (n : ℕ) (rec : Rec) : List NodeIndex → ℕ → ParserM NodeIndex :=
  parseBodyDecl .kw_union .UnionDecl "union" n rec (parseStructField rec)

/-! ### Modules, uses, and constants -/

def parseModBody (n : ℕ) (rec : Rec) (start : Span) (name : InternedStr) (docs : List NodeIndex)
    (flags : ℕ) : ParserM NodeIndex := do
  let children ← parseUntil n docs .r_brace (rec .topLevelDecl)
  let close := (← expect .r_brace .ExpectedClose "to close module body").tokenSpan
  alloc .ModDecl ⟨start.start, close.end⟩ children name flags

def parseModDecl (n : ℕ) (rec : Rec) (docs : List NodeIndex) (flags : ℕ) : ParserM NodeIndex := do
  let start := (← expect .kw_mod .ExpectedKeyword "").tokenSpan
  let name ← expectName .identifier "module"
  if ← consume .l_brace then parseModBody n rec start name docs flags
  else if ← check .semi then
    let close := (← peekToken).tokenSpan
    let _ ← advance
    alloc .ModDeclFile ⟨start.start, close.end⟩ docs name flags
  else
    addError (← peekToken).tokenSpan .ExpectedModOpenOrSemi
    makeErrorNode (← peekToken).tokenSpan

def usePathTurn (pathSpan : Span) : ParserM (Turn Span Span) := do
  if !(← check .colon_colon) then pure (.done pathSpan)
  else if (← peekAt 1) = .star then pure (.done pathSpan)
  else if (← peekAt 1) ≠ .identifier then pure (.done pathSpan)
  else
    let _ ← advance
    let _ ← advance
    pure (.again ⟨pathSpan.start, (← previous).tokenSpan.end⟩)

/-- A glob or an alias behind the path: the end of the declaration and its full path. -/
def parseUseTail (pathSpan : Span) (fullPath : InternedStr) : ParserM (Span × InternedStr) := do
  if ← check .colon_colon then
    let _ ← advance
    if ← consume .star then
      let endSpan := (← previous).tokenSpan
      pure (endSpan, ← internText ⟨pathSpan.start, endSpan.end⟩)
    else
      addError (← peekToken).tokenSpan .ExpectedUseItemOrGlob
      pure (pathSpan, fullPath)
  else if ← consume .kw_as then
    let _ ← expectAndIntern .identifier .ExpectedAsAlias
    let endSpan := (← previous).tokenSpan
    pure (endSpan, ← internText ⟨pathSpan.start, endSpan.end⟩)
  else pure (pathSpan, fullPath)

def parseUseDecl (n : ℕ) (docs : List NodeIndex) (flags : ℕ) : ParserM NodeIndex := do
  let start := (← expect .kw_use .ExpectedKeyword "").tokenSpan
  let _ ← expect .identifier .ExpectedIdentifier "in use path"
  let pathSpan ← iterate usePathTurn n (← previous).tokenSpan
  let fullPath ← internText pathSpan
  let tail ← parseUseTail pathSpan fullPath
  let _ ← expect .semi .ExpectedSemi "after use declaration"
  alloc .UseDecl ⟨start.start, tail.1.end⟩ docs tail.2 flags

def parseConstDecl (rec : Rec) (docs : List NodeIndex) (flags : ℕ) : ParserM NodeIndex := do
  let start := (← expect .kw_const .ExpectedKeyword "").tokenSpan
  let name ← expectName .identifier "constant"
  let _ ← expect .colon .ExpectedColon "after constant name"
  let type ← rec .type
  let _ ← expect .eq .ExpectedEq "in constant declaration"
  let val ← parseConstExpr rec
  let _ ← expect .semi .ExpectedSemi "after constant declaration"
  alloc .ConstDecl ⟨start.start, (← previous).tokenSpan.end⟩ (docs ++ [type, val]) name flags

/-! ### Traits and implementations -/

/-- After a malformed method: go on at the next one or the end of the body. -/
def resyncMethod (errorsBefore : ℕ) : ParserM Unit := do
  if (← errorsSize) ≠ errorsBefore then
    skipUntil fun k => k = .r_brace || k = .kw_fn || k = .kw_unsafe_
  else pure ()

def methodTurn (n : ℕ) (rec : Rec) (expectBody : Bool) (children : List NodeIndex) :
    ParserM (Turn (List NodeIndex) (List NodeIndex)) := do
  if (← check .r_brace) || (← atEof) then pure (.done children)
  else
    let methodDocs ← parseDocComments n
    let errorsBefore ← errorsSize
    let method ← parseFnDecl n rec methodDocs 0 expectBody
    resyncMethod errorsBefore
    pure (.again (children ++ [method]))

def parseTraitDecl (n : ℕ) (rec : Rec) (docs : List NodeIndex) (flags : ℕ) :
    ParserM NodeIndex := do
  let start := (← expect .kw_trait .ExpectedKeyword "").tokenSpan
  let name ← expectName .identifier "trait"
  let genericParams ← parseGenericParams n rec
  let _ ← expect .l_brace .ExpectedOpen "to start trait body"
  let children ← iterate (methodTurn n rec false) n (docs ++ pushed genericParams)
  let close := (← expect .r_brace .ExpectedClose "to close trait body").tokenSpan
  alloc .TraitDecl ⟨start.start, close.end⟩ children name flags

/-- The trait and the type, or no trait and the type. -/
def parseImplTypes (rec : Rec) : ParserM (List NodeIndex) := do
  let firstType ← rec .type
  if ← consume .kw_for then
    let type ← rec .type
    pure [firstType, type]
  else pure [NullNode, firstType]

def parseImplDecl (n : ℕ) (rec : Rec) (docs : List NodeIndex) (flags : ℕ) :
    ParserM NodeIndex := do
  let start := (← expect .kw_impl .ExpectedKeyword "").tokenSpan
  let genericParams ← parseGenericParams n rec
  let types ← parseImplTypes rec
  let _ ← expect .l_brace .ExpectedOpen "to start impl body"
  let children ← iterate (methodTurn n rec true) n (docs ++ pushed genericParams ++ types)
  let close := (← expect .r_brace .ExpectedClose "to close impl body").tokenSpan
  alloc .ImplDecl ⟨start.start, close.end⟩ children 0 flags

/-! ### The top level -/

def consumePub : ParserM ℕ := do
  if ← consume .kw_pub then pure PubFlag else pure 0

/-- `unsafe` goes with `fn`; otherwise the case falls through to constants. -/
def parseUnsafeDecl (n : ℕ) (rec : Rec) (docs : List NodeIndex) (flags : ℕ) :
    ParserM NodeIndex := do
  if (← peekAt 1) = .kw_fn then
    let _ ← advance
    parseFnDecl n rec docs (flags ||| UnsafeFlag) true
  else parseConstDecl rec docs flags

def rejectDocs (docs : List NodeIndex) (loc : Span) : ParserM Unit :=
  if docs ≠ [] then addError loc .DocCommentNotAllowed else pure ()

def parseBadDecl (docs : List NodeIndex) : ParserM NodeIndex := do
  let tok ← peekToken
  rejectDocs docs tok.tokenSpan
  addError tok.tokenSpan .ExpectedTopLevelDecl
  synchronize
  makeErrorNode tok.tokenSpan

/-- The declaration behind its docs and `pub`. -/
def parseDecl (n : ℕ) (rec : Rec) (docs : List NodeIndex) (flags : ℕ) : ParserM NodeIndex := do
  match ← peek with
  | .kw_fn => parseFnDecl n rec docs flags true
  | .kw_unsafe_ => parseUnsafeDecl n rec docs flags
  | .kw_const => parseConstDecl rec docs flags
  | .kw_mod => parseModDecl n rec docs flags
  | .kw_struct => parseStructDecl n rec docs flags
  | .kw_enum => parseEnumDecl n rec docs flags
  | .kw_union => parseUnionDecl n rec docs flags
  | .kw_use => parseUseDecl n docs flags
  | .kw_trait => parseTraitDecl n rec docs flags
  | .kw_impl => parseImplDecl n rec docs flags
  | _ => parseBadDecl docs

def parseTopLevelDecl (n : ℕ) (rec : Rec) : ParserM NodeIndex := do
  let docs ← parseDocComments n
  let flags ← consumePub
  parseDecl n rec docs flags

/-! ### The recursion and the entry point -/

/-- The body of each production that recursion enters. -/
def body (n : ℕ) (rec : Rec) : Call → ParserM NodeIndex
  | .expr minBP => parseExpr n rec minBP
  | .type => parseType n rec
  | .pat => parsePat n rec
  | .stmt => parseStmt n rec
  | .block => parseBlockExpr n rec
  | .ifExpr => parseIfExpr rec
  | .topLevelDecl => parseTopLevelDecl n rec

/-- The productions with recursion and loops limited to depth `n`. -/
def run : ℕ → Rec
  | 0, _ => throw .fuel
  | n + 1, call => body n (run n) call

def sourceTurn (rec : Rec) (children : List NodeIndex) :
    ParserM (Turn (List NodeIndex) (List NodeIndex)) := do
  if ← atEof then pure (.done children)
  else
    let decl ← rec .topLevelDecl
    pure (.again (children ++ [decl]))

def parseSourceFile (n : ℕ) : ParserM NodeIndex := do
  let startOfFile := (← peekToken).tokenSpan
  let docs ← parseFileDocComments n
  let children ← iterate (sourceTurn (run n)) n docs
  let endOfFile := (← previous).tokenSpan
  alloc .SourceFile ⟨startOfFile.start, endOfFile.end⟩ children 0 0

/-- The parser's constructor. -/
def initialState (tokens : TokenStream) (interner : StringInterner) : PState :=
  ⟨tokens, NodePool.new, interner, [], true, 0, []⟩

structure ParseResult where
  pool : NodePool
  root : NodeIndex
  errors : List Diag.PhaseDiagnostic

/-- The result, with the interner and the stream the parser leaves behind. -/
def parse (n : ℕ) (tokens : TokenStream) (interner : StringInterner) :
    Except Stuck (ParseResult × PState) :=
  match parseSourceFile n (initialState tokens interner) with
  | .ok (root, s) => .ok (⟨s.pool, root, s.errors⟩, s)
  | .error e => .error e

end Eter.Parser
