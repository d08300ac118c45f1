import Eter.LexerLoop
import Eter.DiagnosticEngine
import Eter.ParserRuns

/-!
# The driver on one file

The driver lexes the buffer into a token stream, moves the stream into the parser, and then emits
the lexer's errors and the parser's. The lexer's errors are read from the stream that was moved.
-/

namespace Eter.Driver
open Diag Eter.Parser

/-- What move construction leaves behind: both vectors are empty, the rest was copied. -/
def movedFrom (stream : TokenStream) : TokenStream := { stream with tokens := [], lexErrors := [] }

def lexerDiagnostic (lErr : LexerError) : Diagnostic :=
  ((Diag.error lErr.errorSpan).message (getErrorString lErr.errorKind)).diag

def parserDiagnostic (pErr : PhaseDiagnostic) : Diagnostic :=
  let rendered := renderMessage (messageFor pErr.localID) pErr.args
  let b := (Diag.error pErr.loc).message rendered
  let b := pErr.labels.foldl (fun b l => b.label l.diagSpan l.message) b
  let b := pErr.notes.foldl DiagnosticBuilder.note b
  (pErr.helps.foldl DiagnosticBuilder.help b).diag

def emitLexErrors (stream : TokenStream) (engine : DiagnosticEngine) : DiagnosticEngine :=
  stream.lexErrors.foldl (fun engine lErr => engine.emit (lexerDiagnostic lErr)) engine

def emitParserErrors (errors : List PhaseDiagnostic) (engine : DiagnosticEngine) :
    DiagnosticEngine :=
  errors.foldl (fun engine pErr => engine.emit (parserDiagnostic pErr)) engine

/-- What the driver has of one file once its diagnostics are emitted. -/
structure FileReport where
  result : ParseResult
  interner : StringInterner
  engine : DiagnosticEngine

/-- `parseFile` from the lexer to the last emitted diagnostic. Opening the file emitted none. -/
def reportSource (source : Bytes) (interner : StringInterner) : Except Stuck FileReport :=
  let stream := TokenStream.ofItems (Lexer.lexAll source) source
  match parse (enough stream.tokens) stream interner with
  | .error stuck => .error stuck
  | .ok (result, s) =>
    -- The stream is read after it was moved into the parser.
    let engine := emitLexErrors (movedFrom stream) .new
    .ok ⟨result, s.interner, emitParserErrors result.errors engine⟩

/-- The errors among the items, in order. -/
def lexerErrors (items : List LexerItem) : List LexerError :=
  items.filterMap fun item => match item with
    | .token _ => none
    | .error e => some e

/-- One error for each error of the lexer, in order, then one for each error of the parser. -/
def ReportsEveryError (source : Bytes) (interner : StringInterner) : Prop :=
  ∃ report, reportSource source interner = .ok report ∧
    report.engine.diagnostics = (lexerErrors (Lexer.lexAll source)).map lexerDiagnostic ++
      report.result.errors.map parserDiagnostic

theorem lexerErrors_eq_nil_iff (items : List LexerItem) :
    lexerErrors items = [] ↔ ∀ e, .error e ∉ items := by
  unfold lexerErrors
  rw [List.filterMap_eq_nil_iff]
  constructor
  · intro h e he
    cases h _ he
  · intro h item hitem
    cases item with
    | token t => rfl
    | error e => exact absurd hitem (h e)

/-- The emission loops in order, on any stream. -/
theorem emit_diagnostics (stream : TokenStream) (errors : List PhaseDiagnostic) :
    (emitParserErrors errors (emitLexErrors stream .new)).diagnostics =
      stream.lexErrors.map lexerDiagnostic ++ errors.map parserDiagnostic := by
  unfold emitParserErrors emitLexErrors
  rw [DiagnosticEngine.foldl_emit, DiagnosticEngine.foldl_emit]
  rfl

/-- The driver always comes through, and emits the errors of the parser alone. -/
theorem reportSource_diagnostics (source : Bytes) (interner : StringInterner) :
    ∃ report, reportSource source interner = .ok report ∧
      report.engine.diagnostics = report.result.errors.map parserDiagnostic := by
  obtain ⟨r, s, hp, -⟩ := parse_spec .acceptance
    (TokenStream.errorsOf (Lexer.lexAll source)) source interner
    (le_refl (enough (TokenStream.tokensOf (Lexer.lexAll source))))
  refine ⟨⟨r, s.interner, emitParserErrors r.errors (emitLexErrors (movedFrom
    (.ofItems (Lexer.lexAll source) source)) .new)⟩, ?_, ?_⟩
  · have hp' : parse (enough (TokenStream.ofItems (Lexer.lexAll source) source).tokens)
        (.ofItems (Lexer.lexAll source) source) interner = .ok (r, s) := hp
    simp only [reportSource, hp']
  · exact emit_diagnostics _ r.errors

theorem reports_every_error_iff (source : Bytes) (interner : StringInterner) :
    ReportsEveryError source interner ↔ ∀ e, .error e ∉ Lexer.lexAll source := by
  rw [← lexerErrors_eq_nil_iff]
  obtain ⟨report, hreport, hemitted⟩ := reportSource_diagnostics source interner
  constructor
  · rintro ⟨report', hreport', hall⟩
    have hsame : report = report' := Except.ok.inj (hreport.symm.trans hreport')
    subst hsame
    have hlen := congrArg List.length (hemitted.symm.trans hall)
    simp only [List.length_append, List.length_map] at hlen
    exact List.length_eq_zero_iff.mp (by omega)
  · intro hnone
    exact ⟨report, hreport, by rw [hemitted, hnone]; rfl⟩

/-- A lone invalid character is an error of the lexer that nobody reports. -/
theorem invalid_character_not_reported : ¬ ReportsEveryError (ascii "$") .new := by
  rintro ⟨report, hreport, hall⟩
  obtain ⟨report', hreport', hemitted⟩ := reportSource_diagnostics (ascii "$") .new
  have hsame : report = report' := Except.ok.inj (hreport.symm.trans hreport')
  subst hsame
  have herrors : lexerErrors (Lexer.lexAll (ascii "$")) = [⟨.InvalidCharacter, ⟨0, 1⟩⟩] := by
    decide +kernel
  have hlen := congrArg List.length (hemitted.symm.trans hall)
  rw [herrors] at hlen
  simp at hlen

end Eter.Driver
