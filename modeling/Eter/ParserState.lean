import Eter.Stateful
import Eter.TokenStream
import Eter.NodePool
import Eter.ParserDiagnostics
import Eter.StringInterner

/-!
# The parser's state and its token helpers

The parser is a state transformer over the stream, the pool, the interner, and the error list. A
step that the source leaves undefined is `Stuck`, and so is a loop that runs out of turns.
Two fields are not part of the source and no step reads them: `strays` counts the braces that error
recovery passes over and the braces that are expected and missing, `slips` lists the places of
interest that a run came by.
-/

namespace Eter.Parser
open Diag Stateful

inductive Stuck where
  | fuel | node | str
  deriving DecidableEq, Repr

/-- An `unsafe` block without its brace; a parameter that starts at no token a parameter can start
with, behind a gap in the text. -/
inductive Slip where
  | bareUnsafe | gappedParam
  deriving DecidableEq, Repr

structure PState where
  stream : TokenStream
  pool : NodePool
  interner : StringInterner
  errors : List PhaseDiagnostic
  structLitAllowed : Bool
  strays : ℕ
  slips : List Slip
  deriving DecidableEq, Repr

abbrev ParserM := StateT PState (Except Stuck)

/-- A loop of at most `n` turns. -/
def iterate {β γ : Type} (turn : β → ParserM (Turn β γ)) (n : ℕ) (b : β) : ParserM γ :=
  Stateful.iterate .fuel turn n b

/-! ### Token stream helpers -/

def peekAt (offset : ℕ) : ParserM Token.Kind := fun s => .ok (s.stream.peek offset, s)

def peek : ParserM Token.Kind := peekAt 0

def peekToken : ParserM Token := fun s => .ok (s.stream.peekToken 0, s)

def previous : ParserM Token := fun s => .ok (s.stream.previous, s)

def check (k : Token.Kind) : ParserM Bool := fun s => .ok (s.stream.check k, s)

def atEof : ParserM Bool := fun s => .ok (s.stream.atEof, s)

def advance : ParserM Token := fun s =>
  .ok (s.stream.advance.1, { s with stream := s.stream.advance.2 })

def consume (k : Token.Kind) : ParserM Bool := fun s =>
  .ok ((s.stream.consume k).1, { s with stream := (s.stream.consume k).2 })

def textOf (span : Span) : ParserM Bytes := fun s => .ok (s.stream.textOf span, s)

def intern (text : Bytes) : ParserM InternedStr := fun s =>
  .ok ((s.interner.intern text).1, { s with interner := (s.interner.intern text).2 })

def internText (span : Span) : ParserM InternedStr := do intern (← textOf span)

/-- `Interner.get` on an identifier it never issued is undefined. -/
def getText (id : InternedStr) : ParserM Bytes := fun s =>
  match s.interner.get? id with
  | some text => .ok (text, s)
  | none => .error .str

/-! ### Nodes -/

def alloc (kind : NodeKind) (span : Span) (children : List NodeIndex) (payload flags : ℕ) :
    ParserM NodeIndex := fun s =>
  .ok ((s.pool.alloc kind span children payload flags).1,
    { s with pool := (s.pool.alloc kind span children payload flags).2 })

def allocLeaf (kind : NodeKind) (span : Span) (payload : ℕ) : ParserM NodeIndex :=
  alloc kind span [] payload 0

def kindOf (i : NodeIndex) : ParserM NodeKind := fun s =>
  match s.pool.get? i with
  | some n => .ok (n.kind, s)
  | none => .error .node

def spanOf (i : NodeIndex) : ParserM Span := fun s =>
  match s.pool.spanOf? i with
  | some span => .ok (span, s)
  | none => .error .node

/-! ### Diagnostics -/

def diag (loc : Span) (id : DiagID) : PhaseDiagnostic := ⟨.Parser, id, loc, [], [], [], []⟩

def arg (d : PhaseDiagnostic) (name value : String) : PhaseDiagnostic :=
  { d with args := d.args ++ [(name, value)] }

def label (d : PhaseDiagnostic) (span : Span) (msg : String) : PhaseDiagnostic :=
  { d with labels := d.labels ++ [⟨span, msg⟩] }

def note (d : PhaseDiagnostic) (msg : String) : PhaseDiagnostic :=
  { d with notes := d.notes ++ [msg] }

def help (d : PhaseDiagnostic) (msg : String) : PhaseDiagnostic :=
  { d with helps := d.helps ++ [msg] }

def report (d : PhaseDiagnostic) : ParserM Unit := fun s =>
  .ok ((), { s with errors := s.errors ++ [d] })

def addError (loc : Span) (id : DiagID) : ParserM Unit := report (diag loc id)

def errorsSize : ParserM ℕ := fun s => .ok (s.errors.length, s)

def makeErrorNode (span : Span) : ParserM NodeIndex := allocLeaf .Error span 0

/-! ### Recovery -/

def isBrace (k : Token.Kind) : Bool := k = .l_brace || k = .r_brace

def countStray (k : Token.Kind) : ParserM Unit := fun s =>
  .ok ((), { s with strays := if isBrace k then s.strays + 1 else s.strays })

def slip (e : Slip) : ParserM Unit := fun s => .ok ((), { s with slips := s.slips ++ [e] })

/-- `advance` where the parser drops a token it could not use. -/
def skip : ParserM Unit := do
  countStray (← peek)
  let _ ← advance

/-- `while (!stop && !atEof()) advance()`, with at most `n` turns. -/
def skipTokens (stop : Token.Kind → Bool) : ℕ → ParserM Unit
  | 0 => throw .fuel
  | n + 1 => do
    if stop (← peek) || (← atEof) then pure ()
    else
      skip
      skipTokens stop n

/-- A turn for each unread token and one to stop. -/
def skipUntil (stop : Token.Kind → Bool) : ParserM Unit := fun s =>
  skipTokens stop (s.stream.tokens.length - s.stream.cursor + 1) s

def isSyncStop (k : Token.Kind) : Bool :=
  k = .r_brace || k = .kw_fn || k = .kw_struct || k = .kw_enum || k = .kw_union || k = .kw_mod ||
  k = .kw_use || k = .kw_const || k = .kw_trait || k = .kw_impl || k = .kw_unsafe_ ||
  k = .kw_break || k = .kw_continue || k = .kw_let || k = .kw_if || k = .kw_while ||
  k = .kw_for || k = .kw_match || k = .kw_ret

/-- The loop of `synchronize` behind its first token, with at most `n` turns. -/
def syncTokens : ℕ → ParserM Unit
  | 0 => throw .fuel
  | n + 1 => do
    if ← atEof then pure ()
    else if (← previous).tokenKind = .semi then pure ()
    else if isSyncStop (← peek) then pure ()
    else
      skip
      syncTokens n

def syncRest : ParserM Unit := fun s =>
  syncTokens (s.stream.tokens.length - s.stream.cursor + 1) s

def synchronize : ParserM Unit := do
  if ← atEof then syncRest
  else
    skip
    syncRest

/-! ### Expecting tokens -/

def expect (k : Token.Kind) (d : DiagID) (context : String) : ParserM Token := do
  if ← consume k then previous
  else
    let t ← peekToken
    countStray k
    let b := arg (arg (arg (diag t.tokenSpan d) "tok" (getTokenName k)) "keyword" (getTokenName k))
      "found" (getTokenName t.tokenKind)
    report (if context = "" then b else arg b "context" context)
    pure ⟨.unknown, t.tokenSpan⟩

def expectAndIntern (k : Token.Kind) (d : DiagID) : ParserM InternedStr := do
  internText (← expect k d "").tokenSpan

def expectName (k : Token.Kind) (construct : String) : ParserM InternedStr := do
  if ← consume k then internText (← previous).tokenSpan
  else
    let t ← peekToken
    report (arg (arg (diag t.tokenSpan .ExpectedName) "construct" construct) "found"
      (getTokenName t.tokenKind))
    internText t.tokenSpan

def parseRegime : ParserM Regime := do
  match ← peek with
  | .kw_imm => let _ ← advance; pure .Imm
  | .kw_mut => let _ ← advance; pure .Mut
  | .kw_proj => let _ ← advance; pure .Proj
  | _ => pure .None

/-- `SaveAndRestore` of `StructLitAllowed` around `m`. -/
def withStructLit {α : Type} (allowed : Bool) (m : ParserM α) : ParserM α := do
  let saved := (← get).structLitAllowed
  modify fun s => { s with structLitAllowed := allowed }
  let a ← m
  modify fun s => { s with structLitAllowed := saved }
  pure a

/-! ### Lists and paths -/

/-- The productions that recursion enters. -/
inductive Call where
  | expr (minBP : ℤ)
  | type
  | pat
  | stmt
  | block
  | ifExpr
  | topLevelDecl
  deriving DecidableEq, Repr

/-- How a production calls another one. -/
abbrev Rec := Call → ParserM NodeIndex

def skipToComma (close : Token.Kind) : ParserM Unit :=
  skipUntil fun k => k = .comma || k = close

/-- After a malformed element: go on at the next comma or the closing delimiter. -/
def resyncElement (close : Token.Kind) (errorsBefore : ℕ) : ParserM Unit := do
  if (← errorsSize) ≠ errorsBefore then skipToComma close else pure ()

def commaTurn (close : Token.Kind) (parseElement : ParserM NodeIndex) (children : List NodeIndex) :
    ParserM (Turn (List NodeIndex) (List NodeIndex)) := do
  let errorsBefore ← errorsSize
  let element ← parseElement
  resyncElement close errorsBefore
  if !(← consume .comma) then pure (.done (children ++ [element]))
  else if ← check close then pure (.done (children ++ [element]))
  else pure (.again (children ++ [element]))

/-- `children` is the list the elements are appended to. -/
def parseCommaSeparated (n : ℕ) (children : List NodeIndex) (close : Token.Kind)
    (parseElement : ParserM NodeIndex) : ParserM (List NodeIndex) := do
  if (← check close) || (← atEof) then pure children
  else iterate (commaTurn close parseElement) n children

def moreTurn (close : Token.Kind → Bool) (parseElement : ParserM NodeIndex)
    (children : List NodeIndex) : ParserM (Turn (List NodeIndex) (List NodeIndex)) := do
  if !(← consume .comma) then pure (.done children)
  else if close (← peek) then pure (.done children)
  else
    let element ← parseElement
    pure (.again (children ++ [element]))

/-- `while (consume(',')) push(element)`, left early before a token in `close`. -/
def parseMore (n : ℕ) (children : List NodeIndex) (close : Token.Kind → Bool)
    (parseElement : ParserM NodeIndex) : ParserM (List NodeIndex) :=
  iterate (moreTurn close parseElement) n children

def untilTurn (close : Token.Kind) (parseElement : ParserM NodeIndex) (children : List NodeIndex) :
    ParserM (Turn (List NodeIndex) (List NodeIndex)) := do
  if (← check close) || (← atEof) then pure (.done children)
  else
    let element ← parseElement
    pure (.again (children ++ [element]))

/-- `while (!check(close) && !atEof()) push(element)`. -/
def parseUntil (n : ℕ) (children : List NodeIndex) (close : Token.Kind)
    (parseElement : ParserM NodeIndex) : ParserM (List NodeIndex) :=
  iterate (untilTurn close parseElement) n children

def redundantTurn (_ : Unit) : ParserM (Turn Unit Unit) := do
  if ← check .colon_colon then
    addError (← peekToken).tokenSpan .RedundantPathSeparator
    let _ ← advance
    pure (.again ())
  else pure (.done ())

/-- Redundant consecutive `::`. -/
def skipRedundantSeparators (n : ℕ) : ParserM Unit := iterate redundantTurn n ()

def segmentTurn (n : ℕ) (acc : Bool × Span) : ParserM (Turn (Bool × Span) (Bool × Span)) := do
  if ← check .colon_colon then
    let _ ← advance
    skipRedundantSeparators n
    let _ ← expect .identifier .ExpectedPathSegment ""
    pure (.again (true, ⟨acc.2.start, (← previous).tokenSpan.end⟩))
  else pure (.done acc)

/-- Whether a segment was consumed, and the widened span. -/
def parsePathSegments (n : ℕ) (pathSpan : Span) : ParserM (Bool × Span) :=
  iterate (segmentTurn n) n (false, pathSpan)

def docTurn (tokenKind : Token.Kind) (nodeKind : NodeKind) (out : List NodeIndex) :
    ParserM (Turn (List NodeIndex) (List NodeIndex)) := do
  if ← check tokenKind then
    let tok ← advance
    let text ← internText tok.tokenSpan
    let doc ← allocLeaf nodeKind tok.tokenSpan text
    pure (.again (out ++ [doc]))
  else pure (.done out)

def parseDocs (n : ℕ) (tokenKind : Token.Kind) (nodeKind : NodeKind) :
    ParserM (List NodeIndex) :=
  iterate (docTurn tokenKind nodeKind) n []

def parseDocComments (n : ℕ) : ParserM (List NodeIndex) := parseDocs n .doc_comment .DocComment

def parseFileDocComments (n : ℕ) : ParserM (List NodeIndex) :=
  parseDocs n .file_doc_comment .FileDocComment

/-- A child that is pushed unless it is `NullNode`. -/
def pushed (i : NodeIndex) : List NodeIndex := if i = NullNode then [] else [i]

end Eter.Parser
