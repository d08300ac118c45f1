import Eter.Walks

/-!
# Properties of declarations

What the parser's steps have, declarations and source files have too.
-/

namespace Eter.Parser
open Stateful Diag

/-- Declarations look further ahead and read the text of a name, besides. -/
structure DeclWalk (P : ∀ α : Type, ParserM α → Prop) : Prop extends Walk P where
  peekAt : ∀ k, P _ (peekAt k)
  getText : ∀ id, P _ (getText id)

structure DeclWalkRec (P : ∀ α : Type, ParserM α → Prop) (rec : Rec) : Prop
    extends WalkRec P rec where
  topLevelDecl : P _ (rec .topLevelDecl)

variable {P : ∀ α : Type, ParserM α → Prop} {rec : Rec} {n : ℕ}

namespace Walk

theorem parseDocs (h : Walk P) (tokenKind : Token.Kind) (nodeKind : NodeKind) :
    P _ (parseDocs n tokenKind nodeKind) :=
  h.iterate (fun _ => h.bind (h.check tokenKind) fun _ => ite
    (h.bind h.advance fun _ => h.bind (h.internText _) fun _ =>
      h.bind (h.allocLeaf _ _ _) fun _ => h.pure _) (h.pure _)) n []

theorem parseBound (h : Walk P) (hrec : WalkRec P rec) : P _ (parseBound rec) :=
  h.bind (h.consume .colon) fun _ => ite hrec.type (h.pure _)

theorem parseGenericParam (h : Walk P) (hrec : WalkRec P rec) : P _ (parseGenericParam rec) := by
  refine h.bind h.peekToken fun _ => h.bind (h.check .identifier) fun _ => ite ?_ ?_
  · exact h.bind h.peekToken fun _ => h.bind (h.addError _ _) fun _ =>
      h.bind h.peekToken fun _ => h.makeErrorNode _
  · exact h.bind h.advance fun _ => h.bind (h.internText _) fun _ =>
      h.bind (h.parseBound hrec) fun _ => h.bind h.previous fun _ => h.alloc _ _ _ _ _

theorem parseGenericParams (h : Walk P) (hrec : WalkRec P rec) :
    P _ (parseGenericParams n rec) := by
  have hlist : P _ (parseGenericList n rec) :=
    h.bind (h.check .greater) fun _ => ite (h.pure _)
      (h.bind (h.parseGenericParam hrec) fun _ => h.parseMore n _ _ (h.parseGenericParam hrec))
  refine h.bind (h.check .less) fun _ => ite (h.pure _) ?_
  exact h.bind h.advance fun _ => h.bind hlist fun _ => h.bind (h.expect _ _ _) fun _ =>
    h.alloc _ _ _ _ _

/-! ### Structures, enumerations, and unions -/

theorem fieldColon (h : Walk P) : P _ parseStructField.fieldColon :=
  h.bind (h.consume .colon) fun _ => ite (h.pure _)
    (h.bind h.peekToken fun _ => h.bind (h.report _) fun _ => h.check .identifier)

theorem parseStructField (h : Walk P) (hrec : WalkRec P rec) : P _ (parseStructField rec) := by
  refine h.bind h.peekToken fun _ => h.bind h.parseRegime fun _ =>
    h.bind (h.check .identifier) fun _ => ite ?_ ?_
  · exact h.bind h.peekToken fun _ => h.bind h.peek fun _ => h.bind (h.report _) fun _ =>
      h.makeErrorNode _
  · refine h.bind h.advance fun _ => h.bind (h.internText _) fun _ => h.bind h.fieldColon fun _ =>
      ite ?_ (h.bind h.previous fun _ => h.makeErrorNode _)
    exact h.bind hrec.type fun _ => h.bind h.previous fun _ => h.alloc _ _ _ _ _

theorem parseTupleVariant (h : Walk P) (hrec : WalkRec P rec) (startPos : ℕ) (name : InternedStr) :
    P _ (parseTupleVariant n rec startPos name) :=
  h.bind (h.parseCommaSeparated n _ _ hrec.type) fun _ => h.bind (h.expect _ _ _) fun _ =>
    h.alloc _ _ _ _ _

theorem parseStructVariant (h : Walk P) (hrec : WalkRec P rec) (startPos : ℕ)
    (name : InternedStr) : P _ (parseStructVariant n rec startPos name) :=
  h.bind (h.parseCommaSeparated n _ _ (h.parseStructField hrec)) fun _ =>
    h.bind (h.expect _ _ _) fun _ => h.alloc _ _ _ _ _

theorem parseEnumVariant (h : Walk P) (hrec : WalkRec P rec) : P _ (parseEnumVariant n rec) := by
  refine h.bind h.peekToken fun _ => h.bind (h.check .identifier) fun _ => ite ?_ ?_
  · exact h.bind h.peekToken fun _ => h.bind h.peek fun _ => h.bind (h.report _) fun _ =>
      h.makeErrorNode _
  · refine h.bind h.advance fun _ => h.bind (h.internText _) fun _ =>
      h.bind (h.consume .l_paren) fun _ => ite (h.parseTupleVariant hrec _ _) ?_
    refine h.bind (h.consume .l_brace) fun _ => ite (h.parseStructVariant hrec _ _) ?_
    refine h.bind (h.consume .eq) fun _ => ite ?_ ?_
    · exact h.bind (hrec.expr 0) fun _ => h.bind h.previous fun _ => h.alloc _ _ _ _ _
    · exact h.bind h.previous fun _ => h.allocLeaf _ _ _

theorem parseBodyDecl (h : Walk P) (hrec : WalkRec P rec) (keyword : Token.Kind) (kind : NodeKind)
    (construct : String) {el : ParserM NodeIndex} (hel : P _ el) (docs : List NodeIndex)
    (flags : ℕ) : P _ (parseBodyDecl keyword kind construct n rec el docs flags) :=
  h.bind (h.expect _ _ _) fun _ => h.bind (h.expectName _ _) fun _ =>
    h.bind (h.parseGenericParams hrec) fun _ => h.bind (h.expect _ _ _) fun _ =>
    h.bind (h.parseCommaSeparated n _ _ hel) fun _ => h.bind (h.expect _ _ _) fun _ =>
    h.alloc _ _ _ _ _

/-! ### Uses and constants -/

theorem parseUseTail (h : Walk P) (span : Span) (name : InternedStr) :
    P _ (parseUseTail span name) := by
  refine h.bind (h.check .colon_colon) fun _ => ite ?_ ?_
  · refine h.bind h.advance fun _ => h.bind (h.consume .star) fun _ => ite ?_ ?_
    · exact h.bind h.previous fun _ => h.bind (h.internText _) fun _ => h.pure _
    · exact h.bind h.peekToken fun _ => h.bind (h.addError _ _) fun _ => h.pure _
  · refine h.bind (h.consume .kw_as) fun _ => ite ?_ (h.pure _)
    exact h.bind (h.expectAndIntern _ _) fun _ => h.bind h.previous fun _ =>
      h.bind (h.internText _) fun _ => h.pure _

theorem parseConstDecl (h : Walk P) (hrec : WalkRec P rec) (docs : List NodeIndex) (flags : ℕ) :
    P _ (parseConstDecl rec docs flags) :=
  h.bind (h.expect _ _ _) fun _ => h.bind (h.expectName _ _) fun _ =>
    h.bind (h.expect _ _ _) fun _ => h.bind hrec.type fun _ => h.bind (h.expect _ _ _) fun _ =>
    h.bind (hrec.expr 0) fun _ => h.bind (h.expect _ _ _) fun _ => h.bind h.previous fun _ =>
    h.alloc _ _ _ _ _

theorem parseBadDecl (h : Walk P) (docs : List NodeIndex) : P _ (parseBadDecl docs) :=
  h.bind h.peekToken fun _ => h.bind (ite (h.addError _ _) (h.pure _)) fun _ =>
    h.bind (h.addError _ _) fun _ => h.bind h.synchronize fun _ => h.makeErrorNode _

end Walk

namespace DeclWalk

/-! ### Functions -/

theorem parseParam (h : DeclWalk P) (hrec : WalkRec P rec) : P _ (parseParam rec) := by
  have hself : ∀ name, P _ (isSelfParam name) := fun name =>
    h.bind (h.getText name) fun _ => h.bind (h.check .colon) fun _ =>
      h.bind (h.check .r_paren) fun _ => h.bind (h.check .comma) fun _ => h.pure _
  have htype : ∀ name, P _ (parseParamType rec name) := fun name =>
    h.bind (hself name) fun _ => Walk.ite
      (h.bind h.previous fun _ => h.bind (h.intern _) fun _ => h.allocLeaf _ _ _)
      (h.bind (h.expect _ _ _) fun _ => hrec.type)
  have hgap : P _ atGap := h.bind h.peekToken fun _ => h.bind h.previous fun _ => h.pure _
  exact h.bind hgap fun _ => h.bind h.peekToken fun _ => h.bind h.parseRegime fun _ =>
    h.bind (h.expectName _ _) fun name => h.bind (htype name) fun _ =>
    h.bind (Walk.ite (h.slip _) (h.pure _)) fun _ => h.bind h.previous fun _ => h.alloc _ _ _ _ _

theorem parseParamList (h : DeclWalk P) (hrec : WalkRec P rec) : P _ (parseParamList n rec) := by
  have hlist : P _ (parseParams n rec) :=
    h.bind (h.check .r_paren) fun _ => Walk.ite (h.pure _)
      (h.bind (h.parseParam hrec) fun _ => h.parseMore n _ _ (h.parseParam hrec))
  exact h.bind (h.expect _ _ _) fun _ => h.bind hlist fun _ => h.bind (h.expect _ _ _) fun _ =>
    h.alloc _ _ _ _ _

theorem parseReturnType (h : DeclWalk P) (hrec : WalkRec P rec) : P _ (parseReturnType rec) := by
  have harrow : P _ reportArrow := h.bind h.peekToken fun _ => h.bind (h.report _) fun _ =>
    h.bind h.advance fun _ => h.pure _
  refine h.bind (h.consume .colon) fun _ => Walk.ite (h.bind hrec.type fun _ => h.pure _) ?_
  refine h.bind (h.check .arrow) fun _ => Walk.ite ?_ (h.pure _)
  exact h.bind harrow fun _ => h.bind hrec.type fun _ => h.pure _

theorem parseFnRest (h : DeclWalk P) (hrec : WalkRec P rec) (docs : List NodeIndex) (flags : ℕ)
    (expectBody : Bool) (startPos : ℕ) :
    P _ (parseFnRest n rec docs flags expectBody startPos) := by
  have hbody : P _ (parseFnBody rec expectBody) :=
    Walk.ite hrec.block (h.bind (h.expect _ _ _) fun _ => h.pure _)
  exact h.bind h.parseRegime fun _ => h.bind (h.expectName _ _) fun _ =>
    h.bind (h.parseGenericParams hrec) fun _ => h.bind (h.parseParamList hrec) fun _ =>
    h.bind (h.parseReturnType hrec) fun _ => h.bind hbody fun _ => h.bind h.previous fun _ =>
    h.alloc _ _ _ _ _

theorem parseFnDecl (h : DeclWalk P) (hrec : WalkRec P rec) (docs : List NodeIndex) (flags : ℕ)
    (expectBody : Bool) : P _ (parseFnDecl n rec docs flags expectBody) := by
  have hunsafe : P _ (consumeUnsafe flags) :=
    h.bind (h.consume .kw_unsafe_) fun _ => Walk.ite (h.pure _) (h.pure _)
  exact h.bind h.peekToken fun _ => h.bind hunsafe fun _ => h.bind (h.expect _ _ _) fun _ =>
    h.parseFnRest hrec docs _ expectBody _

/-! ### The other declarations -/

theorem parseModDecl (h : DeclWalk P) (hrec : DeclWalkRec P rec) (docs : List NodeIndex)
    (flags : ℕ) : P _ (parseModDecl n rec docs flags) := by
  have hbody : ∀ start name, P _ (parseModBody n rec start name docs flags) := fun start name =>
    h.bind (h.parseUntil n docs _ hrec.topLevelDecl) fun _ => h.bind (h.expect _ _ _) fun _ =>
      h.alloc _ _ _ _ _
  refine h.bind (h.expect _ _ _) fun _ => h.bind (h.expectName _ _) fun name =>
    h.bind (h.consume .l_brace) fun _ => Walk.ite (hbody _ name) ?_
  refine h.bind (h.check .semi) fun _ => Walk.ite ?_ ?_
  · exact h.bind h.peekToken fun _ => h.bind h.advance fun _ => h.alloc _ _ _ _ _
  · exact h.bind h.peekToken fun _ => h.bind (h.addError _ _) fun _ =>
      h.bind h.peekToken fun _ => h.makeErrorNode _

theorem usePathTurn (h : DeclWalk P) (span : Span) : P _ (usePathTurn span) := by
  refine h.bind (h.check .colon_colon) fun _ => Walk.ite (h.pure _) ?_
  refine h.bind (h.peekAt 1) fun _ => Walk.ite (h.pure _) ?_
  refine h.bind (h.peekAt 1) fun _ => Walk.ite (h.pure _) ?_
  exact h.bind h.advance fun _ => h.bind h.advance fun _ => h.bind h.previous fun _ => h.pure _

theorem parseUseDecl (h : DeclWalk P) (docs : List NodeIndex) (flags : ℕ) :
    P _ (parseUseDecl n docs flags) :=
  h.bind (h.expect _ _ _) fun _ => h.bind (h.expect _ _ _) fun _ => h.bind h.previous fun _ =>
    h.bind (h.iterate h.usePathTurn n _) fun span => h.bind (h.internText span) fun name =>
    h.bind (h.parseUseTail span name) fun _ => h.bind (h.expect _ _ _) fun _ =>
    h.alloc _ _ _ _ _

theorem methodTurn (h : DeclWalk P) (hrec : WalkRec P rec) (expectBody : Bool)
    (children : List NodeIndex) : P _ (methodTurn n rec expectBody children) := by
  have hsync : ∀ m, P _ (resyncMethod m) := fun m =>
    h.bind h.errorsSize fun _ => Walk.ite (h.skipUntil _) (h.pure _)
  refine h.bind (h.check .r_brace) fun _ => h.bind h.atEof fun _ => Walk.ite (h.pure _) ?_
  exact h.bind (h.parseDocs _ _) fun _ => h.bind h.errorsSize fun m =>
    h.bind (h.parseFnDecl hrec _ 0 expectBody) fun _ => h.bind (hsync m) fun _ => h.pure _

theorem parseTraitDecl (h : DeclWalk P) (hrec : WalkRec P rec) (docs : List NodeIndex)
    (flags : ℕ) : P _ (parseTraitDecl n rec docs flags) :=
  h.bind (h.expect _ _ _) fun _ => h.bind (h.expectName _ _) fun _ =>
    h.bind (h.parseGenericParams hrec) fun _ => h.bind (h.expect _ _ _) fun _ =>
    h.bind (h.iterate (h.methodTurn hrec false) n _) fun _ => h.bind (h.expect _ _ _) fun _ =>
    h.alloc _ _ _ _ _

theorem parseImplDecl (h : DeclWalk P) (hrec : WalkRec P rec) (docs : List NodeIndex)
    (flags : ℕ) : P _ (parseImplDecl n rec docs flags) := by
  have htypes : P _ (parseImplTypes rec) :=
    h.bind hrec.type fun _ => h.bind (h.consume .kw_for) fun _ => Walk.ite
      (h.bind hrec.type fun _ => h.pure _) (h.pure _)
  exact h.bind (h.expect _ _ _) fun _ => h.bind (h.parseGenericParams hrec) fun _ =>
    h.bind htypes fun _ => h.bind (h.expect _ _ _) fun _ =>
    h.bind (h.iterate (h.methodTurn hrec true) n _) fun _ => h.bind (h.expect _ _ _) fun _ =>
    h.alloc _ _ _ _ _

theorem parseDecl (h : DeclWalk P) (hrec : DeclWalkRec P rec) (docs : List NodeIndex)
    (flags : ℕ) : P _ (parseDecl n rec docs flags) := by
  refine h.bind h.peek fun k => ?_
  split
  · exact h.parseFnDecl hrec.toWalkRec docs flags true
  · refine h.bind (h.peekAt 1) fun _ => Walk.ite ?_ (h.parseConstDecl hrec.toWalkRec docs flags)
    exact h.bind h.advance fun _ => h.parseFnDecl hrec.toWalkRec docs _ true
  · exact h.parseConstDecl hrec.toWalkRec docs flags
  · exact h.parseModDecl hrec docs flags
  · exact h.parseBodyDecl hrec.toWalkRec _ _ _ (h.parseStructField hrec.toWalkRec) docs flags
  · exact h.parseBodyDecl hrec.toWalkRec _ _ _ (h.parseEnumVariant hrec.toWalkRec) docs flags
  · exact h.parseBodyDecl hrec.toWalkRec _ _ _ (h.parseStructField hrec.toWalkRec) docs flags
  · exact h.parseUseDecl docs flags
  · exact h.parseTraitDecl hrec.toWalkRec docs flags
  · exact h.parseImplDecl hrec.toWalkRec docs flags
  · exact h.parseBadDecl docs

theorem run (h : DeclWalk P) (n : ℕ) : DeclWalkRec P (run n) := by
  induction n with
  | zero => exact ⟨h.toWalk.run 0, h.fuel⟩
  | succ n ih =>
    refine ⟨h.toWalk.run (n + 1), ?_⟩
    exact h.bind (h.parseDocs _ _) fun docs => h.bind
      (h.bind (h.consume .kw_pub) fun _ => Walk.ite (h.pure _) (h.pure _)) fun flags =>
      h.parseDecl ih docs flags

theorem parseSourceFile (h : DeclWalk P) (n : ℕ) : P _ (parseSourceFile n) := by
  refine h.bind h.peekToken fun _ => h.bind (h.parseDocs _ _) fun docs => ?_
  refine h.bind (h.iterate (fun _ => ?_) n docs) fun _ => h.bind h.previous fun _ =>
    h.alloc _ _ _ _ _
  exact h.bind h.atEof fun _ => Walk.ite (h.pure _)
    (h.bind (h.run n).topLevelDecl fun _ => h.pure _)

end DeclWalk

/-- What the steps keep, a run over a whole file keeps. -/
theorem StepsGrow.declWalk {R : PState → PState → Prop} (h : StepsGrow R) :
    DeclWalk fun _ m => Leads R m where
  toWalk := h.walk
  peekAt k := h.of_reads fun s a t hm => by cases hm; rfl
  getText id := h.of_reads fun s a t hm => by
    unfold Parser.getText at hm
    split at hm <;> cases hm
    rfl

/-! ### Interned names -/

/-- The names that one interner issued the other one knows. -/
def NamesStay (s t : PState) : Prop :=
  ∀ id text, s.interner.get? id = some text → t.interner.get? id = some text

theorem namesStay_grow : StepsGrow NamesStay where
  refl _ _ _ h := h
  trans h h' id text hid := h' id text (h id text hid)
  advance _ _ _ h := h
  intern _ text _ _ h := StringInterner.get?_intern_of_get? h text
  alloc _ _ _ _ _ _ _ _ h := h
  report _ _ _ _ h := h
  countStray _ _ _ _ h := h
  slip _ _ _ _ h := h
  lit _ _ _ h := h

/-- A run forgets no name. -/
theorem parse_names {tokens : TokenStream} {interner : StringInterner} {r : ParseResult}
    {s : PState} (h : parse n tokens interner = .ok (r, s)) {id : InternedStr} {text : Bytes}
    (hid : interner.get? id = some text) : s.interner.get? id = some text := by
  unfold parse at h
  cases hrun : Parser.parseSourceFile n (initialState tokens interner) with
  | error e =>
    rw [hrun] at h
    cases h
  | ok p =>
    rw [hrun] at h
    cases h
    exact namesStay_grow.declWalk.parseSourceFile n _ _ _ hrun id text hid

end Eter.Parser
