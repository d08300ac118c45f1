import Eter.ParserDiagnostics

/-!
# The diagnostic engine

A diagnostic is built step by step and then emitted into the engine, which keeps its diagnostics
in the order they came in.
-/

namespace Eter.Diag

inductive DiagnosticLevel where
  | Error | Warning | Note
  deriving DecidableEq, Repr

inductive DiagnosticKind where
  | UserError | InternalCompilerError
  deriving DecidableEq, Repr

inductive DiagnosticLocation where
  | none
  | file (filename : String)
  | span (locSpan : Span)
  deriving DecidableEq, Repr

structure Diagnostic where
  level : DiagnosticLevel
  kind : DiagnosticKind
  message : String
  location : DiagnosticLocation
  labels : List DiagnosticLabel
  notes : List String
  helps : List String
  deriving DecidableEq, Repr

structure DiagnosticBuilder where
  diag : Diagnostic

namespace DiagnosticBuilder

/-- A builder starts without location and text. -/
def new (level : DiagnosticLevel) (kind : DiagnosticKind) : DiagnosticBuilder :=
  ⟨⟨level, kind, "", .none, [], [], []⟩⟩

def «at» (b : DiagnosticBuilder) (span : Span) : DiagnosticBuilder :=
  ⟨{ b.diag with location := .span span }⟩

def message (b : DiagnosticBuilder) (msg : String) : DiagnosticBuilder :=
  ⟨{ b.diag with message := msg }⟩

def label (b : DiagnosticBuilder) (span : Span) (msg : String) : DiagnosticBuilder :=
  ⟨{ b.diag with labels := b.diag.labels ++ [⟨span, msg⟩] }⟩

def note (b : DiagnosticBuilder) (msg : String) : DiagnosticBuilder :=
  ⟨{ b.diag with notes := b.diag.notes ++ [msg] }⟩

def help (b : DiagnosticBuilder) (msg : String) : DiagnosticBuilder :=
  ⟨{ b.diag with helps := b.diag.helps ++ [msg] }⟩

end DiagnosticBuilder

structure DiagnosticEngine where
  diagnostics : List Diagnostic
  deriving DecidableEq, Repr

namespace DiagnosticEngine

def new : DiagnosticEngine := ⟨[]⟩

def emit (engine : DiagnosticEngine) (diag : Diagnostic) : DiagnosticEngine :=
  ⟨engine.diagnostics ++ [diag]⟩

/-- A loop that emits one diagnostic for each element appends them in order. -/
theorem foldl_emit {α : Type} (build : α → Diagnostic) (xs : List α) (engine : DiagnosticEngine) :
    (xs.foldl (fun engine x => engine.emit (build x)) engine).diagnostics =
      engine.diagnostics ++ xs.map build := by
  induction xs generalizing engine with
  | nil => simp
  | cons x xs ih =>
    rw [List.foldl_cons, ih]
    simp [emit]

end DiagnosticEngine

/-- `DiagnosticEngine::error` at a span. -/
def error (span : Span) : DiagnosticBuilder := (DiagnosticBuilder.new .Error .UserError).«at» span

end Eter.Diag
