import Eter.Separated
import Eter.Utf8
import Eter.Stateful
import Eter.Brackets
import Eter.Layout
import Eter.Forests
import Eter.SourceText
import Eter.TokenKinds
import Eter.Scan
import Eter.LexerScanners
import Eter.LexerLoop
import Eter.LexerProgress
import Eter.LexerTurns
import Eter.LexerLossless
import Eter.LexerLocality
import Eter.LexerSplit
import Eter.TokenStream
import Eter.NodePool
import Eter.PoolRecords
import Eter.Schema
import Eter.ParserDiagnostics
import Eter.StringInterner
import Eter.ParserState
import Eter.ParseTypes
import Eter.ParsePats
import Eter.ParseExprs
import Eter.ParseStmts
import Eter.ParseDecls
import Eter.Walks
import Eter.TreeGrowth
import Eter.ParserInvariant
import Eter.ParserSteps
import Eter.ParserLoops
import Eter.TypeSteps
import Eter.PatternSteps
import Eter.ExpressionSteps
import Eter.OperatorSteps
import Eter.StatementSteps
import Eter.DeclarationSteps
import Eter.ParserRuns
import Eter.Acceptance
import Eter.TreeShape
import Eter.DiagnosticEngine
import Eter.Driver
import Eter.NodeStore
import Eter.Interning
import Eter.LexerRelocation
import Eter.LexerRoundTrip
import Eter.Payloads
import Eter.Placeholders
import Eter.TwinInvariant
import Eter.TwinSteps
import Eter.TwinLoops
import Eter.TwinTypes
import Eter.TwinExprs
import Eter.TwinStmts
import Eter.TwinDecls
import Eter.TwinRuns
import Eter.Contracts
import Eter.LayoutIndependence
import Eter.ValidStates
import Eter.ProjectionAssignment
import Eter.SpanInvariant
import Eter.SpanSteps
import Eter.SpanLoops
import Eter.SpanTypes
import Eter.SpanExprs
import Eter.SpanStmts
import Eter.SpanDecls
import Eter.SpanItems
import Eter.LexerOrder
import Eter.SpanRuns
import Eter.LiteralTurns
import Eter.NumericLanguage
import Eter.TextLiterals
import Eter.DottedIndices
import Eter.CleanCalls
import Eter.ElementLists
import Eter.TensorLiterals
import Eter.Parentheses
import Eter.TupleIndices
import Eter.SyntaxTrees
import Eter.TokenWindows
import Eter.StatementEnds
import Eter.StatementStarts
import Eter.Insertions
import Eter.StatementLists
import Eter.Resynchronisation
import Eter.OptionalSemicolons
import Eter.BinarySearch
import Eter.Pieces
import Eter.SourceManager
import Eter.Snippets
import Eter.SnippetRows
import Eter.Dependencies
import Eter.DeclarationWalks
import Eter.Discovery
import Eter.DeclaredModules
import Eter.DiscoveryRuns
import Eter.PackClosure
import Eter.NestedLoops
import Eter.Expressions
import Eter.SilentRuns
import Eter.BuiltTrees
import Eter.Grammar
import Eter.GatheredNodes
import Eter.GrammarLists
import Eter.GrammarTypes
import Eter.GrammarExprs
import Eter.GrammarOperators
import Eter.GrammarStmts
import Eter.CommandLine
import Eter.PackNames
import Eter.GrammarParams
import Eter.GrammarDecls
import Eter.GrammarRuns
import Eter.ExpressionRoundTrip
import Eter.Silence
import Eter.QuietRuns
import Eter.QuietLists
import Eter.QuietTypes
import Eter.QuietExprs
import Eter.QuietStmts
import Eter.QuietOperators
import Eter.QuietParams
import Eter.QuietDecls
import Eter.Wording
import Eter.WordingSteps
import Eter.WordingTypes
import Eter.WordingExprs
import Eter.WordingStmts
import Eter.WordingDecls
import Eter.PayloadContract
import Eter.PackLanguage
