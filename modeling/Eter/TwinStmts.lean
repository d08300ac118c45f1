import Eter.TwinExprs
import Eter.ParseStmts

/-!
# Two runs of statements and blocks
-/

namespace Eter.Parser
open Stateful Diag NodePool

variable {w : Twin} {f : Frame} {n : ℕ} {rec : Rec}

theorem requireSemi_matches {atEnd : Bool} {context noteText : String} :
    Matches w f (fun _ _ => True) (requireSemi atEnd context noteText)
      (requireSemi atEnd context noteText) := by
  unfold requireSemi
  refine (Matches.consume (by decide)).bind ?_
  rintro b _ rfl
  split
  · exact Matches.pure trivial
  · refine Matches.previous.bind fun _ _ _ => Matches.peekToken.bind fun next next' hnext => ?_
    refine Matches.report rfl ?_
    show fills ["context", "found"] .ExpectedSemi = true
    decide

theorem parseExprStmt_matches (hrec : Recursive w rec) : Twins w (parseExprStmt rec) := by
  intro f
  unfold parseExprStmt
  refine (hrec (.expr 0) f).bind fun expr expr' hexpr => ?_
  refine (Matches.kindOf hexpr).bind ?_
  rintro kind _ rfl
  split
  · exact Matches.synchronize.bind fun _ _ _ => Matches.pure hexpr
  · exact requireSemi_matches.bind fun _ _ _ => Matches.pure hexpr

theorem parseBadStmt_matches {tok tok' : Token} :
    Matches w f (NodeAlike w) (parseBadStmt tok) (parseBadStmt tok') := by
  unfold parseBadStmt
  refine (Matches.addError (by decide)).bind fun _ _ _ => ?_
  exact Matches.synchronize.bind fun _ _ _ => Matches.makeErrorNode

/-- A part that a token announces: one child or none. -/
theorem optional_matches {k : Token.Kind} (hk : k ≠ .eof) {m : ParserM NodeIndex} (hm : Twins w m) :
    Matches w f (KidsAlike w)
      (do if ← consume k then return [← m] else pure [])
      (do if ← consume k then return [← m] else pure []) := by
  refine (Matches.consume hk).bind ?_
  rintro b _ rfl
  split
  · exact (hm f).bind fun _ _ h => Matches.pure (.cons h .nil)
  · exact Matches.pure .nil

theorem KidsAlike.getLast? {as bs : List NodeIndex} (h : KidsAlike w as bs) :
    Option.Rel (NodeAlike w) as.getLast? bs.getLast? := by
  induction h with
  | nil => exact .none
  | cons hx h ih =>
    cases h with
    | nil => exact .some hx
    | cons hy h => simpa [List.getLast?_cons_cons] using ih

theorem closeLet_matches {as bs : List NodeIndex} (h : KidsAlike w as bs) :
    Matches w f (fun _ _ => True) (closeLet as) (closeLet bs) := by
  have hends : Matches w f Eq (endsInError as) (endsInError bs) := by
    unfold endsInError
    have hlast := h.getLast?
    revert hlast
    generalize as.getLast? = a
    generalize bs.getLast? = b
    intro hlast
    cases hlast with
    | none => exact Matches.pure rfl
    | some hx =>
      refine (Matches.kindOf hx).bind ?_
      rintro kind _ rfl
      exact Matches.pure rfl
  unfold closeLet
  refine hends.bind ?_
  rintro b _ rfl
  split
  · unfold resyncLet
    refine (Matches.skipUntil _).bind fun _ _ _ => ?_
    exact (Matches.consume (by decide)).bind fun _ _ _ => Matches.pure trivial
  · exact requireSemi_matches

theorem parseLetStmt_matches (hrec : Recursive w rec) : Twins w (parseLetStmt rec) := by
  intro f
  unfold parseLetStmt
  refine (Matches.expect (by decide) (by decide)).bind fun _ _ _ => ?_
  refine Matches.parseRegime.bind ?_
  rintro r _ rfl
  refine (Names.expectName (by decide)).bind fun name name' => ?_
  refine (optional_matches (by decide) (hrec .type)).bind fun type type' htype => ?_
  refine (optional_matches (by decide) (hrec (.expr 0))).bind fun init init' hinit => ?_
  refine (closeLet_matches (htype.append hinit)).bind fun _ _ _ => ?_
  refine Matches.previous.bind fun _ _ _ => ?_
  exact Matches.allocPacked List.mem_cons_self ⟨rfl, by simp⟩ (htype.append hinit)

theorem parseRetStmt_matches (hrec : Recursive w rec) : Twins w (parseRetStmt rec) := by
  intro f
  unfold parseRetStmt
  refine (Matches.expect (by decide) (by decide)).bind fun _ _ _ => ?_
  refine (hrec (.expr 0) f).bind fun expr expr' hexpr => ?_
  refine (Matches.expect (by decide) (by decide)).bind fun _ _ _ => ?_
  exact Matches.allocPlain rfl (.cons hexpr .nil)

theorem parseHeaderExpr_matches (hrec : Recursive w rec) : Twins w (parseHeaderExpr rec) :=
  fun _ => Matches.withStructLit (hrec (.expr 0) _)

theorem parseElse_matches (hrec : Recursive w rec) :
    Matches w f (KidsAlike w) (parseElse rec) (parseElse rec) := by
  unfold parseElse
  refine (Matches.check _).bind ?_
  rintro b _ rfl
  split
  · refine Matches.advance.bind fun _ _ _ => ?_
    refine (Matches.check _).bind ?_
    rintro b _ rfl
    split
    · exact (hrec .ifExpr f).bind fun _ _ h => Matches.pure (.cons h .nil)
    · exact (hrec .block f).bind fun _ _ h => Matches.pure (.cons h .nil)
  · exact Matches.pure .nil

theorem parseIfExpr_matches (hrec : Recursive w rec) : Twins w (parseIfExpr rec) := by
  intro f
  unfold parseIfExpr
  refine (Matches.expect (by decide) (by decide)).bind fun _ _ _ => ?_
  refine (parseHeaderExpr_matches hrec f).bind fun cond cond' hcond => ?_
  refine (hrec .block f).bind fun body body' hbody => ?_
  refine (parseElse_matches hrec).bind fun other other' hother => ?_
  refine Matches.previous.bind fun _ _ _ => ?_
  exact Matches.allocPlain rfl (.cons hcond (.cons hbody hother))

theorem parseWhileStmt_matches (hrec : Recursive w rec) : Twins w (parseWhileStmt rec) := by
  intro f
  unfold parseWhileStmt
  refine (Matches.expect (by decide) (by decide)).bind fun _ _ _ => ?_
  refine (parseHeaderExpr_matches hrec f).bind fun cond cond' hcond => ?_
  refine (hrec .block f).bind fun body body' hbody => Matches.previous.bind fun _ _ _ => ?_
  exact Matches.allocPlain rfl (.cons hcond (.cons hbody .nil))

theorem parseForStmt_matches (hrec : Recursive w rec) : Twins w (parseForStmt rec) := by
  intro f
  unfold parseForStmt
  refine (Matches.expect (by decide) (by decide)).bind fun _ _ _ => ?_
  refine Matches.parseRegime.bind ?_
  rintro r _ rfl
  refine (Names.expectName (by decide)).bind fun name name' => ?_
  refine (Matches.expect (by decide) (by decide)).bind fun _ _ _ => ?_
  refine (parseHeaderExpr_matches hrec _).bind fun iter iter' hiter => ?_
  refine (hrec .block _).bind fun body body' hbody => (Matches.spanOf hbody).bind fun _ _ _ => ?_
  exact Matches.allocPacked List.mem_cons_self ⟨rfl, by simp⟩ (.cons hiter (.cons hbody .nil))

theorem parseJumpStmt_matches {kind : NodeKind} (henc : encodingOf kind = .plain) :
    Twins w (parseJumpStmt kind) := by
  intro f
  unfold parseJumpStmt
  refine Matches.advance.bind fun _ _ _ => ?_
  refine (Matches.expect (by decide) (by decide)).bind fun _ _ _ => ?_
  exact Matches.allocPlain henc .nil

/-- The one diagnostic that lacks an argument: each goes with a bare `unsafe`. -/
theorem openUnsafe_matches : Matches w f (fun _ _ => True) openUnsafe openUnsafe := by
  unfold openUnsafe
  refine Matches.bindConsume (by decide) (fun _ _ => Matches.pure trivial) ?_
  refine Matches.countStray.bind fun _ _ _ => ?_
  intro s t hI a s' ha
  cases ha
  obtain ⟨es, es', hes, hes', halike, hlack⟩ := hI.errors
  let d (u : PState) : PhaseDiagnostic :=
    arg (arg (diag (u.stream.peekToken 0).tokenSpan .ExpectedOpen) "tok" "\x7b") "context"
      "to start unsafe block body"
  refine ⟨(), _, rfl, trivial,
    { hI with errors := ⟨es ++ [d s], es' ++ [d t], ?_, ?_, ?_, ?_⟩ }⟩
  · show s.errors ++ [d s] = _
    rw [hes, List.append_assoc]
  · show t.errors ++ [d t] = _
    rw [hes', List.append_assoc]
  · exact List.rel_append halike (.cons rfl .nil)
  · have hbare : fills ["tok", "context"] .ExpectedOpen = false := by decide
    have hd : lacking [d s] = 1 := by
      show List.countP (fun d => !fills (d.args.map Prod.fst) d.localID) [d s] = 1
      have hargs : fills ((d s).args.map Prod.fst) (d s).localID = false := hbare
      simp [hargs]
    show (s.slips ++ [Slip.bareUnsafe]).count .bareUnsafe = _
    have happ : lacking (es ++ [d s]) = lacking es + lacking [d s] := List.countP_append
    rw [List.count_append, hlack, happ, hd]
    rfl

/-- Statements up to a closing brace. -/
theorem parseStmts_matches (hrec : Recursive w rec) {kind : NodeKind} {context : String}
    {start start' : Span} (henc : encodingOf kind = .plain)
    (hfill : fills (expectArgs context) .ExpectedClose = true) :
    Matches w f (NodeAlike w)
      (do
        let children ← parseUntil n [] .r_brace (rec .stmt)
        let close := (← expect .r_brace .ExpectedClose context).tokenSpan
        alloc kind ⟨start.start, close.end⟩ children 0 0)
      (do
        let children ← parseUntil n [] .r_brace (rec .stmt)
        let close := (← expect .r_brace .ExpectedClose context).tokenSpan
        alloc kind ⟨start'.start, close.end⟩ children 0 0) := by
  refine (parseUntil_matches _ (hrec .stmt f) .nil).bind fun kids kids' hkids => ?_
  refine (Matches.expect (by decide) hfill).bind fun _ _ _ => ?_
  exact Matches.allocPlain henc hkids

theorem parseUnsafeBlock_matches (hrec : Recursive w rec) : Twins w (parseUnsafeBlock n rec) := by
  intro f
  unfold parseUnsafeBlock
  refine (Matches.expect (by decide) (by decide)).bind fun _ _ _ => ?_
  refine openUnsafe_matches.bind fun _ _ _ => ?_
  exact parseStmts_matches hrec rfl (by decide)

theorem parseBlockExpr_matches (hrec : Recursive w rec) : Twins w (parseBlockExpr n rec) := by
  intro f
  unfold parseBlockExpr
  refine (Matches.expect (by decide) (by decide)).bind fun _ _ _ => ?_
  exact parseStmts_matches hrec rfl (by decide)

theorem parseMatchArm_matches (hrec : Recursive w rec) : Twins w (parseMatchArm rec) := by
  intro f
  unfold parseMatchArm closeArm
  refine (hrec .pat f).bind fun pat pat' hpat => ?_
  refine (Matches.expect (by decide) (by decide)).bind fun _ _ _ => ?_
  refine (hrec (.expr 0) f).bind fun value value' hvalue => ?_
  have hclose : Matches w f (fun _ _ => True) closeArm closeArm := by
    unfold closeArm
    refine (Matches.consume (by decide)).bind ?_
    rintro b _ rfl
    split
    · exact Matches.pure trivial
    · exact (Matches.consume (by decide)).bind fun _ _ _ => Matches.pure trivial
  refine hclose.bind fun _ _ _ => ?_
  refine (Matches.spanOf hpat).bind fun _ _ _ => (Matches.spanOf hvalue).bind fun _ _ _ => ?_
  exact Matches.allocPlain rfl (.cons hpat (.cons hvalue .nil))

theorem parseMatchExpr_matches (hrec : Recursive w rec) : Twins w (parseMatchExpr n rec) := by
  intro f
  unfold parseMatchExpr
  refine (Matches.expect (by decide) (by decide)).bind fun _ _ _ => ?_
  refine (parseHeaderExpr_matches hrec f).bind fun scrutinee scrutinee' hscrutinee => ?_
  refine (Matches.expect (by decide) (by decide)).bind fun _ _ _ => ?_
  refine (parseUntil_matches _ (parseMatchArm_matches hrec f) .nil).bind fun arms arms' harms => ?_
  refine (Matches.expect (by decide) (by decide)).bind fun _ _ _ => ?_
  exact Matches.allocPlain rfl (.cons hscrutinee harms)

/-! ### Dispatch -/

theorem parsePrefixExpr_matches (hrec : Recursive w rec) : Twins w (parsePrefixExpr n rec) := by
  refine fun f => Matches.fromToken fun i k => ?_
  unfold parsePrefixExpr
  refine MatchesAt.peekToken fun hk => ?_
  have htok := TokenAlike.at w i
  rw [w.kind i, hk]
  by_cases hid : k = .identifier
  · subst hid
    exact parseNameExpr_matches hrec (by decide)
  · apply Matches.anywhere
    split_ifs
    · exact Matches.advance.bind fun _ _ _ => parseLitExpr_matches htok
    · exact parseUnaryExpr_matches hrec htok
    · split
      · exact (hid rfl).elim
      · exact parseParenExpr_matches hrec
      · exact parseArrayLitExpr_matches hrec f
      · exact hrec .ifExpr f
      · exact parseWhileStmt_matches hrec f
      · exact parseMatchExpr_matches hrec f
      · exact parseUnsafeBlock_matches hrec f
      · exact hrec .block f
      · exact parseTensorLitExpr_matches hrec f
      · exact parseStarExpr_matches hrec htok
      · exact parseBadExpr_matches htok

theorem parseExpr_matches (hrec : Recursive w rec) (minBP : ℤ) : Twins w (parseExpr n rec minBP) := by
  intro f
  unfold parseExpr
  refine (parsePrefixExpr_matches hrec f).bind fun lhs lhs' hlhs => ?_
  exact Matches.iterate (fun _ _ h => infixTurn_matches hrec h minBP) n hlhs

theorem parseStmt_matches (hrec : Recursive w rec) : Twins w (parseStmt n rec) := by
  intro f
  unfold parseStmt
  refine Matches.peekToken.bind fun tok tok' htok => ?_
  rw [htok.1]
  split_ifs
  · exact parseExprStmt_matches hrec f
  · split
    · exact parseLetStmt_matches hrec f
    · exact hrec .ifExpr f
    · exact parseForStmt_matches hrec f
    · exact parseWhileStmt_matches hrec f
    · exact hrec .block f
    · exact parseRetStmt_matches hrec f
    · exact parseJumpStmt_matches rfl f
    · exact parseJumpStmt_matches rfl f
    · exact parseUnsafeBlock_matches hrec f
    · exact parseBadStmt_matches

end Eter.Parser
