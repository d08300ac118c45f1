import Eter.SourceText

/-!
# Parser diagnostics

The identifiers and message templates in the order of `ParserDiagnostics.def`, the diagnostic a
phase records, and the rendering of a template against its arguments.
-/

namespace Eter.Parser

inductive DiagID where
  | ExpectedTopLevelDecl | ExpectedStmt | ExpectedExpr | ExpectedPattern | ExpectedRegime
  | ExpectedName | ExpectedKeyword | ExpectedIdentifier | ExpectedTypeName | ExpectedToken
  | ExpectedTokenAfter | ExpectedPathSegment | RedundantPathSeparator | ExpectedOpen
  | ExpectedClose | ExpectedSemi | ExpectedColon | ExpectedEq | ExpectedArgListClose
  | ExpectedParenExprClose | ExpectedTupleExprClose | ExpectedFieldName | ExpectedFieldInitName
  | ExpectedStructLitClose | ExpectedArrayLitClose | ExpectedTensorIndexClose
  | ExpectedTensorLitDim | ExpectedTensorLitClose | ExpectedRSquare | ExpectedTupleTypeClose
  | ExpectedArrayTypeSemi | ExpectedArrayTypeClose | ExpectedTensorTypeSemi
  | ExpectedTensorTypeClose | ExpectedTensorOpen | ExpectedFatArrow | ExpectedTuplePatClose
  | ExpectedStructPatClose | ExpectedFieldPatName | ExpectedModOpenOrSemi | ExpectedForInImpl
  | ExpectedTraitFnSemi | ExpectedReturnTypeColon | ExpectedBreakOrContinueSemi
  | ExpectedLessThan | ExpectedGreaterThan | ExpectedTypeParam | ExpectedCommaOrGreater
  | ExpectedModKeyword | ExpectedModName | ExpectedUseItem | ExpectedUseItemOrGlob
  | ExpectedAsAlias | DocCommentNotAllowed
  deriving DecidableEq, Repr

def DiagID.value (d : DiagID) : ℕ := d.ctorIdx

def messageFor : DiagID → String
  | .ExpectedTopLevelDecl => "expected a top-level declaration"
  | .ExpectedStmt => "expected statement"
  | .ExpectedExpr => "expected expression"
  | .ExpectedPattern => "expected pattern"
  | .ExpectedRegime => "expected `imm`, `mut`, or `proj`"
  | .ExpectedName => "expected \x7bconstruct\x7d name, found `\x7bfound\x7d`"
  | .ExpectedKeyword => "expected `\x7bkeyword\x7d`, found `\x7bfound\x7d`"
  | .ExpectedIdentifier => "expected identifier \x7bcontext\x7d, found `\x7bfound\x7d`"
  | .ExpectedTypeName => "expected type name"
  | .ExpectedToken => "expected `\x7btok\x7d`"
  | .ExpectedTokenAfter => "expected `\x7btok\x7d` after `\x7bafter\x7d`"
  | .ExpectedPathSegment => "expected identifier after `::`"
  | .RedundantPathSeparator => "redundant `::` in path"
  | .ExpectedOpen => "expected `\x7btok\x7d` \x7bcontext\x7d, found `\x7bfound\x7d`"
  | .ExpectedClose => "expected `\x7btok\x7d` \x7bcontext\x7d, found `\x7bfound\x7d`"
  | .ExpectedSemi => "expected `;` \x7bcontext\x7d, found `\x7bfound\x7d`"
  | .ExpectedColon => "expected `:` \x7bcontext\x7d, found `\x7bfound\x7d`"
  | .ExpectedEq => "expected `=` \x7bcontext\x7d, found `\x7bfound\x7d`"
  | .ExpectedArgListClose => "expected `)` to close argument list"
  | .ExpectedParenExprClose => "expected `)` to close parenthesized expression"
  | .ExpectedTupleExprClose => "expected `)` to close tuple expression"
  | .ExpectedFieldName => "expected field name after `.`"
  | .ExpectedFieldInitName => "expected field name in struct literal"
  | .ExpectedStructLitClose => "expected `\x7d` to close struct literal"
  | .ExpectedArrayLitClose => "expected `]` to close array literal"
  | .ExpectedTensorIndexClose => "expected `]` to close tensor index expression"
  | .ExpectedTensorLitDim => "expected at least one dimension after `;` in tensor literal"
  | .ExpectedTensorLitClose => "expected `]` to close tensor literal"
  | .ExpectedRSquare => "expected `]` to close index expression"
  | .ExpectedTupleTypeClose => "expected `)` to close tuple type"
  | .ExpectedArrayTypeSemi => "expected `;` in array type"
  | .ExpectedArrayTypeClose => "expected `]` to close array type"
  | .ExpectedTensorTypeSemi => "expected `;` in tensor type"
  | .ExpectedTensorTypeClose => "expected `]` to close tensor type"
  | .ExpectedTensorOpen => "expected `[` after `tensor`"
  | .ExpectedFatArrow => "expected `=>` after pattern"
  | .ExpectedTuplePatClose => "expected `)` to close tuple pattern"
  | .ExpectedStructPatClose => "expected `\x7d` to close struct pattern"
  | .ExpectedFieldPatName => "expected field name in struct pattern"
  | .ExpectedModOpenOrSemi => "expected `\x7b\x7b` or `;` after module name"
  | .ExpectedForInImpl => "expected `for` in trait implementation"
  | .ExpectedTraitFnSemi => "expected `;` after trait method signature"
  | .ExpectedReturnTypeColon => "expected `:` for return type, found `\x7bfound\x7d`"
  | .ExpectedBreakOrContinueSemi => "expected `;` after `break` or `continue`"
  | .ExpectedLessThan => "expected `<` to start generic parameters"
  | .ExpectedGreaterThan => "expected `>` to close generic parameters"
  | .ExpectedTypeParam => "expected type parameter name"
  | .ExpectedCommaOrGreater => "expected `,` or `>` in generic parameter list"
  | .ExpectedModKeyword => "expected `mod` after `pub`"
  | .ExpectedModName => "expected module name after `mod`"
  | .ExpectedUseItem => "expected item name after `use`"
  | .ExpectedUseItemOrGlob => "expected identifier or `*` in use declaration"
  | .ExpectedAsAlias => "expected alias name after `as`"
  | .DocCommentNotAllowed => "documentation comment not allowed on this item"

end Eter.Parser

namespace Eter.Diag

inductive Phase where
  | Lexer | Parser
  deriving DecidableEq, Repr

structure DiagnosticLabel where
  diagSpan : Span
  message : String
  deriving DecidableEq, Repr

/-- `localID` is kept as the enumerator whose value the source stores. -/
structure PhaseDiagnostic where
  ph : Phase
  localID : Parser.DiagID
  loc : Span
  labels : List DiagnosticLabel
  notes : List String
  helps : List String
  args : List (String × String)
  deriving DecidableEq, Repr

/-- The text up to the closing brace and what follows it; `none` without a closing brace. -/
def splitClose : List Char → Option (List Char × List Char)
  | [] => none
  | c :: cs => if c = '}' then some ([], cs) else (splitClose cs).map fun r => (c :: r.1, r.2)

/-- The value of the first argument of that name, else the placeholder itself. -/
def expandPlaceholder (args : List (String × String)) (name : List Char) : List Char :=
  match args.find? fun a => a.1.toList = name with
  | some a => a.2.toList
  | none => '{' :: name ++ ['}']

/-- The loop over the template, at most `fuel` turns; a turn consumes a character. -/
def renderChars (args : List (String × String)) : ℕ → List Char → List Char
  | 0, _ => []
  | _ + 1, [] => []
  | fuel + 1, c :: cs =>
    if c ≠ '{' then c :: renderChars args fuel cs
    else
      match splitClose cs with
      | none => c :: cs
      | some (name, rest) => expandPlaceholder args name ++ renderChars args fuel rest

def renderMessage (template : String) (args : List (String × String)) : String :=
  String.ofList (renderChars args template.length template.toList)

end Eter.Diag
