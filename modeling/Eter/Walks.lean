import Eter.ParseDecls

/-!
# Properties of all productions

A property of computations that the parser's steps have, and that sequencing keeps, is one of every
production inside a declaration.
-/

namespace Eter.Parser
open Stateful Diag

/-- The steps have the property, and sequencing keeps it. -/
structure Walk (P : ∀ α : Type, ParserM α → Prop) : Prop where
  pure : ∀ {α : Type} (a : α), P α (pure a)
  bind : ∀ {α β : Type} {m : ParserM α} {f : α → ParserM β}, P α m → (∀ a, P β (f a)) →
    P β (m >>= f)
  fuel : ∀ {α : Type}, P α (throw .fuel)
  peek : P _ peek
  peekToken : P _ peekToken
  previous : P _ previous
  check : ∀ k, P _ (check k)
  atEof : P _ atEof
  advance : P _ advance
  consume : ∀ k, P _ (consume k)
  textOf : ∀ span, P _ (textOf span)
  intern : ∀ text, P _ (intern text)
  alloc : ∀ kind span kids payload flags, P _ (alloc kind span kids payload flags)
  kindOf : ∀ i, P _ (kindOf i)
  spanOf : ∀ i, P _ (spanOf i)
  report : ∀ d, P _ (report d)
  errorsSize : P _ errorsSize
  countStray : ∀ k, P _ (countStray k)
  slip : ∀ e, P _ (slip e)
  skipUntil : ∀ stop, P _ (skipUntil stop)
  syncRest : P _ syncRest
  structLit : ∀ {α : Type} (lit : Bool) {m : ParserM α}, P α m → P α (withStructLit lit m)
  brace : ∀ {m m' : ParserM NodeIndex}, P _ m → P _ m' →
    P _ (do if (← structLitAllowed) && (← Parser.check .l_brace) then m else m')

/-- The calls inside a declaration have the property. -/
structure WalkRec (P : ∀ α : Type, ParserM α → Prop) (rec : Rec) : Prop where
  expr : ∀ minBP, P _ (rec (.expr minBP))
  type : P _ (rec .type)
  pat : P _ (rec .pat)
  stmt : P _ (rec .stmt)
  block : P _ (rec .block)
  ifExpr : P _ (rec .ifExpr)

variable {P : ∀ α : Type, ParserM α → Prop} {rec : Rec} {n : ℕ}

namespace Walk

/-! ### Steps and loops -/

theorem ite {α : Type} {c : Prop} [Decidable c] {m m' : ParserM α} (hm : P α m)
    (hm' : P α m') : P α (if c then m else m') := by
  split_ifs
  · exact hm
  · exact hm'

theorem iterate (h : Walk P) {β γ : Type} {turn : β → ParserM (Turn β γ)}
    (hturn : ∀ b, P _ (turn b)) (n : ℕ) (b : β) : P γ (iterate turn n b) := by
  induction n generalizing b with
  | zero => exact h.fuel
  | succ n ih =>
    refine h.bind (hturn b) fun r => ?_
    cases r with
    | again b' => exact ih b'
    | done c => exact h.pure c

theorem internText (h : Walk P) (span : Span) : P _ (internText span) :=
  h.bind (h.textOf span) fun text => h.intern text

theorem allocLeaf (h : Walk P) (kind : NodeKind) (span : Span) (payload : ℕ) :
    P _ (allocLeaf kind span payload) :=
  h.alloc kind span [] payload 0

theorem addError (h : Walk P) (loc : Span) (id : DiagID) : P _ (addError loc id) :=
  h.report _

theorem makeErrorNode (h : Walk P) (span : Span) : P _ (makeErrorNode span) :=
  h.allocLeaf .Error span 0

theorem skip (h : Walk P) : P _ Parser.skip :=
  h.bind h.peek fun k => h.bind (h.countStray k) fun _ => h.bind h.advance fun _ => h.pure ()

theorem synchronize (h : Walk P) : P _ synchronize :=
  h.bind h.atEof fun _ => ite h.syncRest (h.bind h.skip fun _ => h.syncRest)

theorem expect (h : Walk P) (k : Token.Kind) (d : DiagID) (context : String) :
    P _ (expect k d context) :=
  h.bind (h.consume k) fun _ => ite h.previous (h.bind h.peekToken fun _ =>
    h.bind (h.countStray k) fun _ => h.bind (h.report _) fun _ => h.pure _)

theorem expectAndIntern (h : Walk P) (k : Token.Kind) (d : DiagID) : P _ (expectAndIntern k d) :=
  h.bind (h.expect k d "") fun _ => h.internText _

theorem expectName (h : Walk P) (k : Token.Kind) (construct : String) :
    P _ (expectName k construct) :=
  h.bind (h.consume k) fun _ => ite (h.bind h.previous fun _ => h.internText _)
    (h.bind h.peekToken fun _ => h.bind (h.report _) fun _ => h.internText _)

theorem parseRegime (h : Walk P) : P _ parseRegime := by
  refine h.bind h.peek fun k => ?_
  split
  · exact h.bind h.advance fun _ => h.pure _
  · exact h.bind h.advance fun _ => h.pure _
  · exact h.bind h.advance fun _ => h.pure _
  · exact h.pure _

theorem resyncElement (h : Walk P) (close : Token.Kind) (m : ℕ) : P _ (resyncElement close m) :=
  h.bind h.errorsSize fun _ => ite (h.skipUntil _) (h.pure ())

theorem parseCommaSeparated (h : Walk P) (n : ℕ) (children : List NodeIndex) (close : Token.Kind)
    {el : ParserM NodeIndex} (hel : P _ el) : P _ (parseCommaSeparated n children close el) := by
  refine h.bind (h.check close) fun _ => h.bind h.atEof fun _ => ite (h.pure _) ?_
  refine h.iterate (fun cs => ?_) n children
  refine h.bind h.errorsSize fun _ => h.bind hel fun _ => h.bind (h.resyncElement close _) fun _ =>
    h.bind (h.consume .comma) fun _ => ite (h.pure _) ?_
  exact h.bind (h.check close) fun _ => ite (h.pure _) (h.pure _)

theorem parseMore (h : Walk P) (n : ℕ) (children : List NodeIndex) (close : Token.Kind → Bool)
    {el : ParserM NodeIndex} (hel : P _ el) : P _ (parseMore n children close el) := by
  refine h.iterate (fun cs => ?_) n children
  refine h.bind (h.consume .comma) fun _ => ite (h.pure _) ?_
  exact h.bind h.peek fun _ => ite (h.pure _) (h.bind hel fun _ => h.pure _)

theorem parseUntil (h : Walk P) (n : ℕ) (children : List NodeIndex) (close : Token.Kind)
    {el : ParserM NodeIndex} (hel : P _ el) : P _ (parseUntil n children close el) := by
  refine h.iterate (fun cs => ?_) n children
  refine h.bind (h.check close) fun _ => h.bind h.atEof fun _ => ite (h.pure _) ?_
  exact h.bind hel fun _ => h.pure _

theorem parsePathSegments (h : Walk P) (n : ℕ) (span : Span) : P _ (parsePathSegments n span) := by
  refine h.iterate (fun acc => ?_) n _
  refine h.bind (h.check .colon_colon) fun _ => ite ?_ (h.pure _)
  refine h.bind h.advance fun _ => h.bind (h.iterate (fun _ => ?_) n ()) fun _ => ?_
  · refine h.bind (h.check .colon_colon) fun _ => ite ?_ (h.pure _)
    exact h.bind h.peekToken fun _ => h.bind (h.addError _ _) fun _ =>
      h.bind h.advance fun _ => h.pure _
  · exact h.bind (h.expect _ _ _) fun _ => h.bind h.previous fun _ => h.pure _

/-! ### Types and patterns -/

theorem parseTupleType (h : Walk P) (hrec : WalkRec P rec) : P _ (parseTupleType n rec) :=
  h.bind h.advance fun _ => h.bind (h.parseCommaSeparated n [] _ hrec.type)
    fun _ => h.bind (h.expect _ _ _) fun _ => h.alloc _ _ _ _ _

theorem parseNamedType (h : Walk P) : P _ (parseNamedType n) := by
  refine h.bind (h.check _) fun _ => h.bind (h.check _) fun _ => ite ?_ ?_
  · exact h.bind h.peekToken fun _ => h.bind (h.addError _ _) fun _ =>
      h.bind h.peekToken fun _ => h.makeErrorNode _
  · exact h.bind h.advance fun _ => h.bind (h.parsePathSegments n _) fun _ =>
      h.bind (h.internText _) fun _ => h.allocLeaf _ _ _

theorem parseArrayType (h : Walk P) (hrec : WalkRec P rec) : P _ (parseArrayType rec) :=
  h.bind h.advance fun _ => h.bind hrec.type fun _ =>
    h.bind (h.expect _ _ _) fun _ => h.bind (hrec.expr _) fun _ =>
      h.bind (h.expect _ _ _) fun _ => h.alloc _ _ _ _ _

theorem requireDim (h : Walk P) (empty : Bool) : P _ (requireDim empty) :=
  ite (h.bind h.peekToken fun _ => h.addError _ _) (h.pure ())

theorem parseTensorType (h : Walk P) (hrec : WalkRec P rec) : P _ (parseTensorType n rec) :=
  h.bind h.advance fun _ => h.bind (h.expect _ _ _) fun _ =>
    h.bind hrec.type fun _ => h.bind (h.expect _ _ _) fun _ =>
      h.bind (h.parseCommaSeparated n _ _ (hrec.expr _)) fun _ =>
        h.bind (h.requireDim _) fun _ => h.bind (h.expect _ _ _) fun _ => h.alloc _ _ _ _ _

theorem parseType (h : Walk P) (hrec : WalkRec P rec) : P _ (parseType n rec) :=
  h.bind (h.check _) fun _ => ite (h.parseTupleType hrec) <|
    h.bind (h.check _) fun _ => ite (h.parseArrayType hrec) <|
      h.bind (h.check _) fun _ => ite (h.parseTensorType hrec) h.parseNamedType

theorem parseFieldPat (h : Walk P) (hrec : WalkRec P rec) : P _ (parseFieldPat rec) := by
  refine h.bind (h.check _) fun _ => ite ?_ ?_
  · exact h.bind h.peekToken fun _ => h.bind (h.addError _ _) fun _ => h.makeErrorNode _
  · refine h.bind h.advance fun _ => h.bind (h.internText _) fun _ => h.bind (h.consume _) fun _ =>
      ite ?_ (h.allocLeaf _ _ _)
    exact h.bind hrec.pat fun _ => h.bind (h.spanOf _) fun _ => h.alloc _ _ _ _ _

theorem parseStructPat (h : Walk P) (hrec : WalkRec P rec) (name : InternedStr) (start : Span) :
    P _ (parseStructPat n rec name start) :=
  h.bind h.advance fun _ => h.bind (h.parseCommaSeparated n [] _ (h.parseFieldPat hrec)) fun _ =>
    h.bind (h.expect _ _ _) fun _ => h.alloc _ _ _ _ _

theorem parseTuplePat (h : Walk P) (hrec : WalkRec P rec) (name : InternedStr) (start : Span) :
    P _ (parseTuplePat n rec name start) :=
  h.bind h.advance fun _ => h.bind (h.parseCommaSeparated n [] _ hrec.pat)
    fun _ => h.bind (h.expect _ _ _) fun _ => h.alloc _ _ _ _ _

theorem parseNamePat (h : Walk P) (hrec : WalkRec P rec) (tok : Token) :
    P _ (parseNamePat n rec tok) := by
  refine h.bind (h.textOf _) fun _ => ite ?_ ?_
  · exact h.bind h.advance fun _ => h.allocLeaf _ _ _
  · refine h.bind h.advance fun _ => h.bind (h.parsePathSegments n _) fun _ =>
      h.bind (h.internText _) fun _ => ?_
    exact h.bind (h.check _) fun _ => ite (h.parseTuplePat hrec _ _) <|
      h.bind (h.check _) fun _ => ite (h.parseStructPat hrec _ _) (h.allocLeaf _ _ _)

theorem parsePat (h : Walk P) (hrec : WalkRec P rec) : P _ (parsePat n rec) := by
  refine h.bind h.peekToken fun tok => ite (h.parseNamePat hrec tok) <|
    ite (h.parseTuplePat hrec _ _) <| ite ?_ ?_
  · exact h.bind h.advance fun _ => h.bind (h.internText _) fun _ => h.allocLeaf _ _ _
  · exact h.bind (h.addError _ _) fun _ => h.bind h.skip fun _ => h.makeErrorNode _

/-! ### Expressions -/

theorem parseFieldInit (h : Walk P) (hrec : WalkRec P rec) : P _ (parseFieldInit rec) := by
  refine h.bind (h.check _) fun _ => ite ?_ ?_
  · exact h.bind h.peekToken fun _ => h.bind (h.addError _ _) fun _ => h.makeErrorNode _
  · refine h.bind h.advance fun _ => h.bind (h.internText _) fun _ => h.bind (h.consume _) fun _ =>
      ite ?_ ?_
    · exact h.bind (hrec.expr _) fun _ => h.bind (h.spanOf _) fun _ => h.alloc _ _ _ _ _
    · exact h.bind (h.allocLeaf _ _ _) fun _ => h.alloc _ _ _ _ _

theorem parseStructLitExpr (h : Walk P) (hrec : WalkRec P rec) (name : InternedStr) (start : Span) :
    P _ (parseStructLitExpr n rec name start) :=
  h.bind h.advance fun _ => h.structLit true <|
    h.bind (h.parseCommaSeparated n [] _ (h.parseFieldInit hrec)) fun _ =>
      h.bind (h.expect _ _ _) fun _ => h.alloc _ _ _ _ _

theorem parseNameExpr (h : Walk P) (hrec : WalkRec P rec) (tok : Token) :
    P _ (parseNameExpr n rec tok) :=
  h.bind h.advance fun _ => h.bind (h.parsePathSegments n _) fun _ => h.bind (h.internText _) fun _ =>
    h.brace (h.parseStructLitExpr hrec _ _) (h.allocLeaf _ _ _)

theorem parseParenExpr (h : Walk P) (hrec : WalkRec P rec) (tok : Token) :
    P _ (parseParenExpr n rec tok) := by
  refine h.bind h.advance fun _ => h.structLit true <| h.bind (h.check _) fun _ => ite ?_ ?_
  · exact h.bind h.advance fun _ => h.alloc _ _ _ _ _
  · refine h.bind (hrec.expr _) fun _ => h.bind (h.check _) fun _ => ite ?_ ?_
    · exact h.bind (h.parseMore n _ _ (hrec.expr _)) fun _ =>
        h.bind (h.expect _ _ _) fun _ => h.alloc _ _ _ _ _
    · exact h.bind (h.expect _ _ _) fun _ => h.pure _

theorem parseArrayRest (h : Walk P) (hrec : WalkRec P rec) (start : Span) (first : NodeIndex) :
    P _ (parseArrayRest n rec start first) := by
  refine h.bind (h.consume _) fun _ => ite ?_ ?_
  · exact h.bind (hrec.expr _) fun _ => h.bind (h.expect _ _ _) fun _ =>
      h.alloc _ _ _ _ _
  · exact h.bind (h.parseMore n _ _ (hrec.expr _)) fun _ =>
      h.bind (h.expect _ _ _) fun _ => h.alloc _ _ _ _ _

theorem parseArrayLitExpr (h : Walk P) (hrec : WalkRec P rec) : P _ (parseArrayLitExpr n rec) := by
  refine h.bind h.advance fun _ => h.structLit true <| h.bind (h.check _) fun _ => ite ?_ ?_
  · exact h.bind h.advance fun _ => h.alloc _ _ _ _ _
  · exact h.bind (hrec.expr _) fun _ => h.parseArrayRest hrec _ _

theorem parseTensorLitExpr (h : Walk P) (hrec : WalkRec P rec) : P _ (parseTensorLitExpr n rec) := by
  refine h.bind h.advance fun _ => h.bind (h.expect _ _ _) fun _ =>
    h.bind (h.structLit true ?_) fun _ => ?_
  · exact h.bind (hrec.expr _) fun _ => h.parseMore n _ _ (hrec.expr _)
  · exact h.bind (h.expect _ _ _) fun _ =>
      h.bind (h.parseCommaSeparated n _ _ (hrec.expr _)) fun _ =>
        h.bind (h.requireDim _) fun _ => h.bind (h.expect _ _ _) fun _ => h.alloc _ _ _ _ _

theorem parseUnaryExpr (h : Walk P) (hrec : WalkRec P rec) (tok : Token) :
    P _ (parseUnaryExpr rec tok) :=
  h.bind h.advance fun _ => h.bind (hrec.expr _) fun _ => h.bind (h.spanOf _) fun _ =>
    h.alloc _ _ _ _ _

theorem parseStarExpr (h : Walk P) (hrec : WalkRec P rec) (tok : Token) :
    P _ (parseStarExpr rec tok) := by
  refine h.bind h.advance fun _ => h.bind (hrec.expr _) fun _ =>
    h.bind (h.consume _) fun _ => ite ?_ ?_
  · exact h.bind (hrec.expr _) fun _ => h.bind (h.spanOf _) fun _ => h.alloc _ _ _ _ _
  · exact h.bind (h.spanOf _) fun _ => h.alloc _ _ _ _ _

theorem parseBadExpr (h : Walk P) (tok : Token) : P _ (parseBadExpr tok) := by
  have hreport : P _ (Parser.addError tok.tokenSpan .ExpectedExpr >>= fun _ =>
      Parser.makeErrorNode tok.tokenSpan) :=
    h.bind (h.addError _ _) fun _ => h.makeErrorNode _
  unfold Parser.parseBadExpr
  split_ifs
  · exact hreport
  · exact h.bind h.skip fun _ => hreport

/-! ### Postfix forms and operators -/

theorem parseArgList (h : Walk P) (hrec : WalkRec P rec) : P _ (parseArgList n rec) := by
  refine h.bind (h.expect _ _ _) fun _ => h.structLit true <| h.bind ?_ fun _ =>
    h.bind (h.expect _ _ _) fun _ => h.alloc _ _ _ _ _
  exact h.bind (h.check _) fun _ => ite (h.pure _) <|
    h.bind (hrec.expr _) fun _ => h.parseMore n _ _ (hrec.expr _)

theorem floatIndex (h : Walk P) : P _ floatIndex :=
  h.bind (h.check _) fun _ => ite (h.bind h.peekToken fun _ => h.bind (h.textOf _) fun _ =>
    h.pure _) (h.pure _)

theorem allocTupleIndex (h : Walk P) (lhs : NodeIndex) (stop : ℕ) (text : Bytes) :
    P _ (allocTupleIndex lhs stop text) :=
  h.bind (h.spanOf _) fun _ => h.bind (h.intern _) fun _ => h.alloc _ _ _ _ _

theorem parseFloatIndex (h : Walk P) (lhs : NodeIndex) (tok : Token) (intPart fracPart : Bytes) :
    P _ (parseFloatIndex lhs tok intPart fracPart) :=
  h.bind h.advance fun _ => h.bind (h.allocTupleIndex _ _ _) fun _ =>
    ite (h.allocTupleIndex _ _ _) (h.pure _)

theorem parseField (h : Walk P) (lhs : NodeIndex) : P _ (parseField lhs) :=
  h.bind (h.expectAndIntern _ _) fun _ => h.bind (h.spanOf _) fun _ => h.bind h.previous fun _ =>
    h.alloc _ _ _ _ _

theorem parseDot (h : Walk P) (lhs : NodeIndex) : P _ (parseDot lhs) := by
  refine h.bind h.advance fun _ => h.bind (h.check _) fun _ => ite ?_ ?_
  · exact h.bind h.advance fun _ => h.bind (h.textOf _) fun _ => h.allocTupleIndex _ _ _
  · refine h.bind h.floatIndex fun r => ?_
    cases r with
    | some r => exact h.parseFloatIndex _ _ _ _
    | none => exact h.parseField _

theorem parsePostfixIndex (h : Walk P) (hrec : WalkRec P rec) (lhs : NodeIndex) :
    P _ (parsePostfixIndex n rec lhs) := by
  refine h.bind h.advance fun _ => h.bind (h.spanOf _) fun _ => h.bind (h.structLit true ?_)
    fun _ => h.bind (h.expect _ _ _) fun _ => h.alloc _ _ _ _ _
  exact h.bind (hrec.expr _) fun _ => h.parseMore n _ _ (hrec.expr _)

theorem postfixTurn (h : Walk P) (hrec : WalkRec P rec) (lhs : NodeIndex) :
    P _ (postfixTurn n rec lhs) := by
  refine h.bind h.peek fun k => ?_
  split
  · exact h.bind (h.bind (h.parseArgList hrec) fun _ => h.bind (h.spanOf _) fun _ =>
      h.bind (h.spanOf _) fun _ => h.alloc _ _ _ _ _) fun _ => h.pure _
  · exact h.bind (h.parseDot _) fun _ => h.pure _
  · exact h.bind (h.parsePostfixIndex hrec _) fun _ => h.pure _
  · exact h.bind (h.bind h.advance fun _ => h.bind (h.spanOf _) fun _ => h.bind h.previous fun _ =>
      h.alloc _ _ _ _ _) fun _ => h.pure _
  · exact h.bind (h.bind h.advance fun _ => h.bind hrec.type fun _ =>
      h.bind (h.spanOf _) fun _ => h.bind (h.spanOf _) fun _ => h.alloc _ _ _ _ _) fun _ => h.pure _
  · exact h.pure _

theorem parsePostfixOrCallExpr (h : Walk P) (hrec : WalkRec P rec) (lhs : NodeIndex) :
    P _ (parsePostfixOrCallExpr n rec lhs) :=
  h.iterate (h.postfixTurn hrec) n lhs

theorem infixTurn (h : Walk P) (hrec : WalkRec P rec) (minBP : ℤ) (lhs : NodeIndex) :
    P _ (infixTurn n rec minBP lhs) := by
  refine h.bind (h.parsePostfixOrCallExpr hrec _) fun _ => h.bind h.peek fun _ => ite (h.pure _) ?_
  refine h.bind h.advance fun _ => h.bind (hrec.expr _) fun _ => h.bind (h.kindOf _)
    fun _ => ite (h.pure _) ?_
  exact h.bind (h.spanOf _) fun _ => h.bind (h.spanOf _) fun _ => h.bind (h.alloc _ _ _ _ _)
    fun _ => h.pure _

/-! ### Statements -/

theorem requireSemi (h : Walk P) (atEnd : Bool) (context noteText : String) :
    P _ (requireSemi atEnd context noteText) :=
  h.bind (h.consume _) fun _ => ite (h.pure ()) (h.bind h.previous fun _ => h.bind h.peekToken
    fun _ => h.report _)

theorem parseExprStmt (h : Walk P) (hrec : WalkRec P rec) : P _ (parseExprStmt rec) :=
  h.bind (hrec.expr _) fun _ => h.bind (h.kindOf _) fun _ =>
    ite (h.bind h.synchronize fun _ => h.pure _) (h.bind (h.requireSemi _ _ _) fun _ => h.pure _)

theorem parseBadStmt (h : Walk P) (tok : Token) : P _ (parseBadStmt tok) :=
  h.bind (h.addError _ _) fun _ => h.bind h.synchronize fun _ => h.makeErrorNode _

theorem optional (h : Walk P) (k : Token.Kind) {m : ParserM NodeIndex} (hm : P _ m) :
    P (List NodeIndex) (do if ← Parser.consume k then return [← m] else Pure.pure []) :=
  h.bind (h.consume k) fun _ => ite (h.bind hm fun _ => h.pure _) (h.pure _)

theorem closeLet (h : Walk P) (children : List NodeIndex) : P _ (closeLet children) := by
  have hends : P _ (endsInError children) := by
    unfold endsInError
    split
    · exact h.bind (h.kindOf _) fun _ => h.pure _
    · exact h.pure _
  exact h.bind hends fun _ => ite (h.bind (h.skipUntil _) fun _ => h.bind (h.consume _) fun _ =>
    h.pure ()) (h.requireSemi _ _ _)

theorem parseLetStmt (h : Walk P) (hrec : WalkRec P rec) : P _ (parseLetStmt rec) :=
  h.bind (h.expect _ _ _) fun _ => h.bind h.parseRegime fun _ => h.bind (h.expectName _ _) fun _ =>
    h.bind (h.optional _ hrec.type) fun _ =>
      h.bind (h.optional _ (hrec.expr _)) fun _ => h.bind (h.closeLet _) fun _ =>
        h.bind h.previous fun _ => h.alloc _ _ _ _ _

theorem parseRetStmt (h : Walk P) (hrec : WalkRec P rec) : P _ (parseRetStmt rec) :=
  h.bind (h.expect _ _ _) fun _ => h.bind (hrec.expr _) fun _ =>
    h.bind (h.expect _ _ _) fun _ => h.alloc _ _ _ _ _

theorem parseHeaderExpr (h : Walk P) (hrec : WalkRec P rec) : P _ (parseHeaderExpr rec) :=
  h.structLit false (hrec.expr _)

theorem parseElse (h : Walk P) (hrec : WalkRec P rec) : P _ (parseElse rec) :=
  h.bind (h.check _) fun _ => ite (h.bind h.advance fun _ => h.bind (h.check _) fun _ =>
    ite (h.bind hrec.ifExpr fun _ => h.pure _) (h.bind hrec.block fun _ => h.pure _)) (h.pure _)

theorem parseIfExpr (h : Walk P) (hrec : WalkRec P rec) : P _ (parseIfExpr rec) :=
  h.bind (h.expect _ _ _) fun _ => h.bind (h.parseHeaderExpr hrec) fun _ =>
    h.bind hrec.block fun _ => h.bind (h.parseElse hrec) fun _ => h.bind h.previous fun _ =>
      h.alloc _ _ _ _ _

theorem parseWhileStmt (h : Walk P) (hrec : WalkRec P rec) : P _ (parseWhileStmt rec) :=
  h.bind (h.expect _ _ _) fun _ => h.bind (h.parseHeaderExpr hrec) fun _ =>
    h.bind hrec.block fun _ => h.bind h.previous fun _ => h.alloc _ _ _ _ _

theorem parseForStmt (h : Walk P) (hrec : WalkRec P rec) : P _ (parseForStmt rec) :=
  h.bind (h.expect _ _ _) fun _ => h.bind h.parseRegime fun _ => h.bind (h.expectName _ _) fun _ =>
    h.bind (h.expect _ _ _) fun _ => h.bind (h.parseHeaderExpr hrec) fun _ =>
      h.bind hrec.block fun _ => h.bind (h.spanOf _) fun _ => h.alloc _ _ _ _ _

theorem parseJumpStmt (h : Walk P) (kind : NodeKind) : P _ (parseJumpStmt kind) :=
  h.bind h.advance fun _ => h.bind (h.expect _ _ _) fun _ => h.allocLeaf _ _ _

theorem openUnsafe (h : Walk P) : P _ openUnsafe :=
  h.bind (h.consume _) fun _ => ite (h.pure ()) (h.bind (h.countStray _) fun _ =>
    h.bind (h.slip _) fun _ => h.bind h.peekToken fun _ => h.report _)

theorem parseUnsafeBlock (h : Walk P) (hrec : WalkRec P rec) : P _ (parseUnsafeBlock n rec) :=
  h.bind (h.expect _ _ _) fun _ => h.bind h.openUnsafe fun _ =>
    h.bind (h.parseUntil n [] _ hrec.stmt) fun _ => h.bind (h.expect _ _ _) fun _ =>
      h.alloc _ _ _ _ _

theorem parseMatchArm (h : Walk P) (hrec : WalkRec P rec) : P _ (parseMatchArm rec) := by
  refine h.bind hrec.pat fun _ => h.bind (h.expect _ _ _) fun _ =>
    h.bind (hrec.expr _) fun _ => h.bind ?_ fun _ => h.bind (h.spanOf _) fun _ =>
      h.bind (h.spanOf _) fun _ => h.alloc _ _ _ _ _
  exact h.bind (h.consume _) fun _ => ite (h.pure ()) (h.bind (h.consume _) fun _ => h.pure ())

theorem parseMatchExpr (h : Walk P) (hrec : WalkRec P rec) : P _ (parseMatchExpr n rec) :=
  h.bind (h.expect _ _ _) fun _ => h.bind (h.parseHeaderExpr hrec) fun _ =>
    h.bind (h.expect _ _ _) fun _ => h.bind (h.parseUntil n [] _ (h.parseMatchArm hrec)) fun _ =>
      h.bind (h.expect _ _ _) fun _ => h.alloc _ _ _ _ _

theorem parseBlockExpr (h : Walk P) (hrec : WalkRec P rec) : P _ (parseBlockExpr n rec) :=
  h.bind (h.expect _ _ _) fun _ => h.bind (h.parseUntil n [] _ hrec.stmt)
    fun _ => h.bind (h.expect _ _ _) fun _ => h.alloc _ _ _ _ _

/-! ### Dispatch -/

theorem parsePrefixExpr (h : Walk P) (hrec : WalkRec P rec) : P _ (parsePrefixExpr n rec) := by
  refine h.bind h.peekToken fun tok => ite ?_ (ite (h.parseUnaryExpr hrec tok) ?_)
  · exact h.bind h.advance fun _ => h.bind (h.internText _) fun _ => h.allocLeaf _ _ _
  · split
    · exact h.parseNameExpr hrec tok
    · exact h.parseParenExpr hrec tok
    · exact h.parseArrayLitExpr hrec
    · exact hrec.ifExpr
    · exact h.parseWhileStmt hrec
    · exact h.parseMatchExpr hrec
    · exact h.parseUnsafeBlock hrec
    · exact hrec.block
    · exact h.parseTensorLitExpr hrec
    · exact h.parseStarExpr hrec tok
    · exact h.parseBadExpr tok

theorem parseExpr (h : Walk P) (hrec : WalkRec P rec) (minBP : ℤ) : P _ (parseExpr n rec minBP) :=
  h.bind (h.parsePrefixExpr hrec) fun _ => h.iterate (h.infixTurn hrec minBP) n _

theorem parseStmt (h : Walk P) (hrec : WalkRec P rec) : P _ (parseStmt n rec) := by
  refine h.bind h.peekToken fun tok => ite (h.parseExprStmt hrec) ?_
  split
  · exact h.parseLetStmt hrec
  · exact hrec.ifExpr
  · exact h.parseForStmt hrec
  · exact h.parseWhileStmt hrec
  · exact hrec.block
  · exact h.parseRetStmt hrec
  · exact h.parseJumpStmt _
  · exact h.parseJumpStmt _
  · exact h.parseUnsafeBlock hrec
  · exact h.parseBadStmt tok

/-- Every production inside a declaration has the property. -/
theorem run (h : Walk P) (n : ℕ) : WalkRec P (run n) := by
  induction n with
  | zero => exact ⟨fun _ => h.fuel, h.fuel, h.fuel, h.fuel, h.fuel, h.fuel⟩
  | succ n ih =>
    exact ⟨fun minBP => h.parseExpr ih minBP, h.parseType ih, h.parsePat ih, h.parseStmt ih,
      h.parseBlockExpr ih, h.parseIfExpr ih⟩

end Walk

/-! ### Steps that grow a state -/

/-- A relation between the states before and after: each step keeps it, whatever the flag is. -/
structure StepsGrow (R : PState → PState → Prop) : Prop where
  refl : ∀ s, R s s
  trans : ∀ {s t u : PState}, R s t → R t u → R s u
  advance : ∀ s : PState, R s { s with stream := s.stream.advance.2 }
  intern : ∀ (s : PState) text, R s { s with interner := (s.interner.intern text).2 }
  alloc : ∀ (s : PState) kind span kids payload flags,
    R s { s with pool := (s.pool.alloc kind span kids payload flags).2 }
  report : ∀ (s : PState) d, R s { s with errors := s.errors ++ [d] }
  countStray : ∀ (s : PState) m, R s { s with strays := m }
  slip : ∀ (s : PState) e, R s { s with slips := e }
  lit : ∀ (s t : PState) lit, R { s with structLitAllowed := lit } t →
    R s { t with structLitAllowed := s.structLitAllowed }

/-- Whatever state the computation ends in. -/
def Leads (R : PState → PState → Prop) {α : Type} (m : ParserM α) : Prop :=
  ∀ s a t, m s = .ok (a, t) → R s t

namespace StepsGrow

variable {R : PState → PState → Prop} {α β : Type} {m : ParserM α} {f : α → ParserM β}

theorem pure (h : StepsGrow R) (a : α) : Leads R (pure a : ParserM α) := by
  intro s b t hm
  cases hm
  exact h.refl s

theorem bind (h : StepsGrow R) (hm : Leads R m) (hf : ∀ a, Leads R (f a)) :
    Leads R (m >>= f) := by
  intro s b u hb
  obtain ⟨a, t, ha, hb⟩ := of_bind_ok hb
  exact h.trans (hm s a t ha) (hf a t b u hb)

theorem of_reads (h : StepsGrow R) (hm : ∀ s a t, m s = .ok (a, t) → t = s) : Leads R m := by
  intro s a t ha
  obtain rfl := hm s a t ha
  exact h.refl _

theorem skip (h : StepsGrow R) : Leads R skip := by
  intro s a t hm
  cases hm
  exact h.trans (h.countStray s _) (h.advance _)

theorem skipTokens (h : StepsGrow R) (stop : Token.Kind → Bool) (n : ℕ) :
    Leads R (skipTokens stop n) := by
  induction n with
  | zero => exact fun s a t hm => nomatch hm
  | succ n ih =>
    unfold Parser.skipTokens
    refine h.bind (h.of_reads fun s a t hm => by cases hm; rfl) fun k => h.bind
      (h.of_reads fun s a t hm => by cases hm; rfl) fun c => ?_
    split_ifs
    · exact h.pure ()
    · exact h.bind h.skip fun _ => ih

theorem syncTokens (h : StepsGrow R) (n : ℕ) : Leads R (syncTokens n) := by
  induction n with
  | zero => exact fun s a t hm => nomatch hm
  | succ n ih =>
    unfold Parser.syncTokens
    refine h.bind (h.of_reads fun s a t hm => by cases hm; rfl) fun c => ?_
    split_ifs
    · exact h.pure ()
    · refine h.bind (h.of_reads fun s a t hm => by cases hm; rfl) fun tok => ?_
      split_ifs
      · exact h.pure ()
      · refine h.bind (h.of_reads fun s a t hm => by cases hm; rfl) fun k => ?_
        split_ifs
        · exact h.pure ()
        · exact h.bind h.skip fun _ => ih

theorem withStructLit (h : StepsGrow R) (lit : Bool) (hm : Leads R m) :
    Leads R (withStructLit lit m) := by
  intro s a t ha
  change (m { s with structLitAllowed := lit } >>= fun p =>
    Except.ok (p.1, { p.2 with structLitAllowed := s.structLitAllowed })) = _ at ha
  cases hms : m { s with structLitAllowed := lit } with
  | error e =>
    rw [hms] at ha
    cases ha
  | ok p =>
    rw [hms] at ha
    cases ha
    exact h.lit s p.2 lit (hm _ _ _ hms)

/-- Every production grows the state so. -/
theorem walk (h : StepsGrow R) : Walk fun _ m => Leads R m where
  pure := h.pure
  bind := h.bind
  fuel := fun s a t hm => nomatch hm
  peek := h.of_reads fun s a t hm => by cases hm; rfl
  peekToken := h.of_reads fun s a t hm => by cases hm; rfl
  previous := h.of_reads fun s a t hm => by cases hm; rfl
  check k := h.of_reads fun s a t hm => by cases hm; rfl
  atEof := h.of_reads fun s a t hm => by cases hm; rfl
  advance := fun s a t hm => by cases hm; exact h.advance s
  consume k := by
    intro s a t hm
    cases hm
    unfold TokenStream.consume
    split_ifs
    · exact h.advance s
    · exact h.refl s
  textOf span := h.of_reads fun s a t hm => by cases hm; rfl
  intern text := fun s a t hm => by cases hm; exact h.intern s text
  alloc kind span kids payload flags := fun s a t hm => by cases hm; exact h.alloc s _ _ _ _ _
  kindOf i := h.of_reads fun s a t hm => by
    unfold Parser.kindOf at hm
    split at hm <;> cases hm
    rfl
  spanOf i := h.of_reads fun s a t hm => by
    unfold Parser.spanOf at hm
    split at hm <;> cases hm
    rfl
  report d := fun s a t hm => by cases hm; exact h.report s d
  errorsSize := h.of_reads fun s a t hm => by cases hm; rfl
  countStray k := fun s a t hm => by cases hm; exact h.countStray s _
  slip e := fun s a t hm => by cases hm; exact h.slip s _
  skipUntil stop := fun s => h.skipTokens stop _ s
  syncRest := fun s => h.syncTokens _ s
  structLit {_} lit {_} hm := h.withStructLit lit hm
  brace {m m'} hm hm' := by
    refine h.bind (h.of_reads fun s a t ha => by cases ha; rfl) fun lit => ?_
    refine h.bind (h.of_reads fun s a t ha => ?_) fun c => ?_
    · revert ha
      cases lit
      · rintro ⟨⟩
        rfl
      · rintro ⟨⟩
        rfl
    · split_ifs
      · exact hm
      · exact hm'

end StepsGrow

/-! ### What every run keeps -/

/-- Nothing that was built or reported goes away, and no token is read twice. -/
structure PState.Precedes (s t : PState) : Prop where
  tokens : t.stream.tokens = s.stream.tokens
  source : t.stream.source = s.stream.source
  lit : t.structLitAllowed = s.structLitAllowed
  forward : s.stream.cursor ≤ t.stream.cursor
  nodes : s.pool.nodes <+: t.pool.nodes
  children : s.pool.children <+: t.pool.children
  spans : s.pool.spans <+: t.pool.spans
  errors : s.errors <+: t.errors

variable {s t u : PState} {x : NodeIndex} {call : Call}

theorem PState.Precedes.refl (s : PState) : s.Precedes s :=
  ⟨rfl, rfl, rfl, le_rfl, List.prefix_rfl, List.prefix_rfl, List.prefix_rfl, List.prefix_rfl⟩

theorem PState.Precedes.trans (h : s.Precedes t) (h' : t.Precedes u) : s.Precedes u :=
  ⟨h'.tokens.trans h.tokens, h'.source.trans h.source, h'.lit.trans h.lit,
    h.forward.trans h'.forward, h.nodes.trans h'.nodes, h.children.trans h'.children,
    h.spans.trans h'.spans, h.errors.trans h'.errors⟩

theorem precedes_grow : StepsGrow PState.Precedes where
  refl := .refl
  trans := .trans
  advance s := by
    unfold TokenStream.advance
    split
    · exact { PState.Precedes.refl s with forward := Nat.le_succ _ }
    · exact .refl s
  intern s _ := { PState.Precedes.refl s with }
  alloc s _ _ _ _ _ := { PState.Precedes.refl s with
    nodes := List.prefix_append _ _
    children := List.prefix_append _ _
    spans := List.prefix_append _ _ }
  report s _ := { PState.Precedes.refl s with errors := List.prefix_append _ _ }
  countStray s _ := { PState.Precedes.refl s with }
  slip s _ := { PState.Precedes.refl s with }
  lit s t lit h := { h with lit := rfl }

/-- A computation that only appends. -/
def Appends {α : Type} (m : ParserM α) : Prop :=
  ∀ s, Grows PState.Precedes m (fun _ _ => True) s

theorem Appends.of_leads {α : Type} {m : ParserM α} (h : Leads PState.Precedes m) : Appends m :=
  fun s a t ha => ⟨h s a t ha, trivial⟩

theorem appends_walk : Walk fun _ m => Appends m := by
  have heq : (fun (α : Type) (m : ParserM α) => Appends m) = fun _ m => Leads PState.Precedes m := by
    funext α m
    exact propext ⟨fun h s a t ha => (h s a t ha).1, Appends.of_leads⟩
  rw [heq]
  exact precedes_grow.walk

/-- What every production does every call inside a declaration does. -/
theorem Walk.of_call (h : Walk P) (n : ℕ) (hcall : call ≠ .topLevelDecl) : P _ (Parser.run n call) := by
  have h := h.run n
  cases call with
  | expr m => exact h.expr m
  | type => exact h.type
  | pat => exact h.pat
  | stmt => exact h.stmt
  | block => exact h.block
  | ifExpr => exact h.ifExpr
  | topLevelDecl => exact absurd rfl hcall

/-! ### Computations that report -/

def Reports {α : Type} (m : ParserM α) : Prop :=
  ∀ s a t, m s = .ok (a, t) → s.errors.length < t.errors.length

theorem Reports.report (d : PhaseDiagnostic) : Reports (report d) := by
  intro s a t h
  cases h
  simp

theorem Reports.first {α β : Type} {m : ParserM α} {f : α → ParserM β} (hm : Reports m)
    (hf : ∀ a, Appends (f a)) : Reports (m >>= f) := by
  intro s b u h
  obtain ⟨a, t, ha, hb⟩ := of_bind_ok h
  exact (hm s a t ha).trans_le ((hf a t b u hb).1.errors.length_le)

theorem Reports.next {α β : Type} {m : ParserM α} {f : α → ParserM β} (hm : Appends m)
    (hf : ∀ a, Reports (f a)) : Reports (m >>= f) := by
  intro s b u h
  obtain ⟨a, t, ha, hb⟩ := of_bind_ok h
  exact ((hm s a t ha).1.errors.length_le).trans_lt (hf a t b u hb)

theorem Reports.parseBadExpr (tok : Token) : Reports (parseBadExpr tok) := by
  have hrest : Reports (addError tok.tokenSpan .ExpectedExpr >>= fun _ =>
      makeErrorNode tok.tokenSpan) :=
    .first (.report _) fun _ => appends_walk.makeErrorNode _
  unfold Parser.parseBadExpr
  split_ifs
  · exact hrest
  · exact .next appends_walk.skip fun _ => hrest

theorem Reports.parseBadPat (tok : Token) : Reports (parseBadPat tok) :=
  .first (.report _) fun _ => appends_walk.bind appends_walk.skip fun _ =>
    appends_walk.makeErrorNode _

theorem Reports.parseBadStmt (tok : Token) : Reports (parseBadStmt tok) :=
  .first (.report _) fun _ => appends_walk.bind appends_walk.synchronize fun _ =>
    appends_walk.makeErrorNode _

end Eter.Parser
