import Eter.TwinTypes
import Eter.ParseExprs

/-!
# Two runs of expressions
-/

namespace Eter.Parser
open Stateful Diag NodePool

variable {w : Twin} {f : Frame} {n : ℕ} {rec : Rec}

theorem parseLitExpr_matches {tok tok' : Token} (h : TokenAlike w tok tok') :
    Matches w f (NodeAlike w) (parseLitExpr tok) (parseLitExpr tok') := by
  unfold parseLitExpr
  refine (Names.internText h.2).bind fun name name' => ?_
  exact Matches.allocPackedNone List.mem_cons_self ⟨rfl, by simp⟩ .nil

/-! ### Struct literals and names -/

theorem parseFieldInit_matches (hrec : Recursive w rec) : Twins w (parseFieldInit rec) := by
  intro f
  unfold parseFieldInit
  refine (Matches.check _).bind ?_
  rintro b _ rfl
  split
  · refine Matches.peekToken.bind fun _ _ _ => ?_
    exact (Matches.addError (by decide)).bind fun _ _ _ => Matches.makeErrorNode
  · refine Matches.advance.bind fun tok tok' htok => ?_
    refine (Names.internText htok.2).bind fun name name' => ?_
    refine (Matches.consume (by decide)).bind ?_
    rintro b _ rfl
    split
    · refine (hrec (.expr 0) _).bind fun init init' hinit => ?_
      refine (Matches.spanOf hinit).bind fun _ _ _ => ?_
      exact Matches.allocName List.mem_cons_self ⟨rfl, by simp⟩ (.cons hinit .nil)
    · refine (Matches.allocName List.mem_cons_self ⟨rfl, by simp⟩ .nil).bind
        fun ident ident' hident => ?_
      exact Matches.allocName List.mem_cons_self ⟨rfl, by simp⟩ (.cons hident .nil)

theorem parseStructLitExpr_matches (hrec : Recursive w rec) {name name' : InternedStr}
    {sliced : Bool} {start start' : Span} (hmem : ⟨name, name', sliced⟩ ∈ f.names) :
    Matches w f (NodeAlike w) (parseStructLitExpr n rec name start)
      (parseStructLitExpr n rec name' start') := by
  unfold parseStructLitExpr
  refine Matches.advance.bind fun _ _ _ => Matches.withStructLit ?_
  refine (parseCommaSeparated_matches _ (parseFieldInit_matches hrec _) .nil).bind
    fun fields fields' hfields => ?_
  refine (Matches.expect (by decide) (by decide)).bind fun _ _ _ => ?_
  exact Matches.allocName hmem ⟨rfl, fun _ => rfl⟩ hfields

theorem structLitAllowed_matches : Matches w f Eq structLitAllowed structLitAllowed := by
  intro s t hI a s' ha
  cases ha
  exact ⟨_, t, rfl, hI.leftLit.trans hI.rightLit.symm, hI⟩

theorem parseNameExpr_matches (hrec : Recursive w rec) {i : ℕ} {k : Token.Kind} (hk : k ≠ .eof) :
    MatchesAt w f i k (NodeAlike w) (parseNameExpr n rec (w.left.tokenAt i))
      (parseNameExpr n rec (w.right.tokenAt (i + w.shift))) := by
  unfold parseNameExpr
  refine MatchesAt.advance hk ?_
  refine (parsePathSegments_matches (Nat.le_refl (i + 1))).bind fun a b hab => ?_
  refine (Names.internText hab.span).bind fun name name' => ?_
  refine structLitAllowed_matches.bind ?_
  rintro lit _ rfl
  refine (Matches.check _).bind ?_
  rintro c _ rfl
  split
  · exact parseStructLitExpr_matches hrec List.mem_cons_self
  · rw [hab.1]
    refine Matches.allocName List.mem_cons_self ?_ .nil
    cases a.1
    · exact ⟨rfl, by simp⟩
    · exact ⟨rfl, fun _ => rfl⟩

/-! ### Brackets -/

theorem parseTupleRest_matches (hrec : Recursive w rec) {tok tok' : Token} {x y : NodeIndex}
    (hx : NodeAlike w x y) :
    Matches w f (NodeAlike w) (parseTupleRest n rec tok x) (parseTupleRest n rec tok' y) := by
  unfold parseTupleRest
  refine (parseMore_matches _ (hrec (.expr 0) f) (.cons hx .nil)).bind fun elems elems' helems => ?_
  refine (Matches.expect (by decide) (by decide)).bind fun _ _ _ => ?_
  exact Matches.allocPlain rfl helems

theorem parseParenExpr_matches (hrec : Recursive w rec) {tok tok' : Token} :
    Matches w f (NodeAlike w) (parseParenExpr n rec tok) (parseParenExpr n rec tok') := by
  unfold parseParenExpr
  refine Matches.advance.bind fun _ _ _ => Matches.withStructLit ?_
  refine (Matches.check _).bind ?_
  rintro b _ rfl
  split
  · exact Matches.advance.bind fun _ _ _ => Matches.allocPlain rfl .nil
  · refine (hrec (.expr 0) _).bind fun inner inner' hinner => ?_
    refine (Matches.check _).bind ?_
    rintro b _ rfl
    split
    · exact parseTupleRest_matches hrec hinner
    · refine (Matches.expect (by decide) (by decide)).bind fun _ _ _ => ?_
      exact Matches.pure hinner

theorem parseArrayRest_matches (hrec : Recursive w rec) {start start' : Span} {x y : NodeIndex}
    (hx : NodeAlike w x y) :
    Matches w f (NodeAlike w) (parseArrayRest n rec start x) (parseArrayRest n rec start' y) := by
  unfold parseArrayRest parseConstExpr
  refine (Matches.consume (by decide)).bind ?_
  rintro b _ rfl
  split
  · refine (hrec (.expr 0) f).bind fun count count' hcount => ?_
    refine (Matches.expect (by decide) (by decide)).bind fun _ _ _ => ?_
    exact Matches.allocPlain rfl (.cons hx (.cons hcount .nil))
  · refine (parseMore_matches _ (hrec (.expr 0) f) (.cons hx .nil)).bind
      fun elems elems' helems => ?_
    refine (Matches.expect (by decide) (by decide)).bind fun _ _ _ => ?_
    exact Matches.allocPlain rfl helems

theorem parseArrayLitExpr_matches (hrec : Recursive w rec) : Twins w (parseArrayLitExpr n rec) := by
  intro f
  unfold parseArrayLitExpr
  refine Matches.advance.bind fun _ _ _ => Matches.withStructLit ?_
  refine (Matches.check _).bind ?_
  rintro b _ rfl
  split
  · exact Matches.advance.bind fun _ _ _ => Matches.allocPlain rfl .nil
  · exact (hrec (.expr 0) _).bind fun first first' hfirst => parseArrayRest_matches hrec hfirst

theorem parseTensorValues_matches (hrec : Recursive w rec) :
    Matches w f (KidsAlike w) (parseTensorValues n rec) (parseTensorValues n rec) := by
  unfold parseTensorValues
  refine Matches.withStructLit ?_
  refine (hrec (.expr 0) _).bind fun first first' hfirst => ?_
  exact parseMore_matches _ (hrec (.expr 0) _) (.cons hfirst .nil)

theorem parseTensorLitExpr_matches (hrec : Recursive w rec) :
    Twins w (parseTensorLitExpr n rec) := by
  intro f
  unfold parseTensorLitExpr parseConstExpr
  refine Matches.advance.bind fun _ _ _ => ?_
  refine (Matches.expect (by decide) (by decide)).bind fun _ _ _ => ?_
  refine (parseTensorValues_matches hrec).bind fun values values' hvalues => ?_
  refine (Matches.expect (by decide) (by decide)).bind fun _ _ _ => ?_
  refine (parseCommaSeparated_matches _ (hrec (.expr 0) f) hvalues).bind fun kids kids' hkids => ?_
  rw [hkids.length_eq, hvalues.length_eq]
  refine (requireDim_matches _).bind fun _ _ _ => ?_
  refine (Matches.expect (by decide) (by decide)).bind fun _ _ _ => ?_
  exact Matches.allocPlain rfl hkids

/-! ### Operators -/

theorem parseUnaryExpr_matches (hrec : Recursive w rec) {tok tok' : Token}
    (h : TokenAlike w tok tok') :
    Matches w f (NodeAlike w) (parseUnaryExpr rec tok) (parseUnaryExpr rec tok') := by
  unfold parseUnaryExpr
  refine Matches.advance.bind fun _ _ _ => ?_
  rw [h.1]
  refine (hrec (.expr _) f).bind fun operand operand' hoperand => ?_
  refine (Matches.spanOf hoperand).bind fun _ _ _ => ?_
  exact Matches.allocOperator rfl rfl (.cons hoperand .nil)

theorem parseStarExpr_matches (hrec : Recursive w rec) {tok tok' : Token}
    (h : TokenAlike w tok tok') :
    Matches w f (NodeAlike w) (parseStarExpr rec tok) (parseStarExpr rec tok') := by
  unfold parseStarExpr
  refine Matches.advance.bind fun _ _ _ => ?_
  rw [h.1]
  refine (hrec (.expr _) f).bind fun operand operand' hoperand => ?_
  refine (Matches.consume (by decide)).bind ?_
  rintro b _ rfl
  split
  · refine (hrec (.expr 0) f).bind fun rhs rhs' hrhs => ?_
    refine (Matches.spanOf hrhs).bind fun _ _ _ => ?_
    exact Matches.allocPlain rfl (.cons hoperand (.cons hrhs .nil))
  · refine (Matches.spanOf hoperand).bind fun _ _ _ => ?_
    exact Matches.allocOperator rfl rfl (.cons hoperand .nil)

theorem parseBadExpr_matches {tok tok' : Token} (h : TokenAlike w tok tok') :
    Matches w f (NodeAlike w) (parseBadExpr tok) (parseBadExpr tok') := by
  unfold parseBadExpr
  rw [h.1]
  dsimp only
  split
  · exact (Matches.addError (by decide)).bind fun _ _ _ => Matches.makeErrorNode
  · refine Matches.skip.bind fun _ _ _ => ?_
    exact (Matches.addError (by decide)).bind fun _ _ _ => Matches.makeErrorNode

/-! ### Postfix forms -/

theorem parseArgs_matches (hrec : Recursive w rec) :
    Matches w f (KidsAlike w) (parseArgs n rec) (parseArgs n rec) := by
  unfold parseArgs
  refine (Matches.check _).bind ?_
  rintro b _ rfl
  split
  · exact Matches.pure .nil
  · refine (hrec (.expr 0) f).bind fun first first' hfirst => ?_
    exact parseMore_matches _ (hrec (.expr 0) f) (.cons hfirst .nil)

theorem parseArgList_matches (hrec : Recursive w rec) : Twins w (parseArgList n rec) := by
  intro f
  unfold parseArgList
  refine (Matches.expect (by decide) (by decide)).bind fun _ _ _ => ?_
  refine Matches.withStructLit ?_
  refine (parseArgs_matches hrec).bind fun args args' hargs => ?_
  refine (Matches.expect (by decide) (by decide)).bind fun _ _ _ => ?_
  exact Matches.allocPlain rfl hargs

/-- The parts of a float literal behind a dot, for equal texts. -/
def PartsAlike (r r' : Option (Token × Bytes × Bytes)) : Prop :=
  r'.map (·.2) = r.map (·.2)

theorem floatIndex_matches : Matches w f PartsAlike floatIndex floatIndex := by
  unfold floatIndex
  refine (Matches.check _).bind ?_
  rintro b _ rfl
  split
  · refine Matches.peekToken.bind fun tok tok' htok => ?_
    refine (Matches.textOf htok.2).bind fun text text' htext => Matches.pure ?_
    rw [htext.eq]
    unfold PartsAlike
    cases splitDot text' <;> rfl
  · exact Matches.pure rfl

theorem allocTupleIndex_matches {x y : NodeIndex} (hx : NodeAlike w x y) {stop stop' : ℕ}
    (text : Bytes) :
    Matches w f (NodeAlike w) (allocTupleIndex x stop text) (allocTupleIndex y stop' text) := by
  unfold allocTupleIndex
  refine (Matches.spanOf hx).bind fun _ _ _ => ?_
  refine (Names.internSame _).bind fun name name' => ?_
  exact Matches.allocName List.mem_cons_self ⟨rfl, by simp⟩ (.cons hx .nil)

theorem parseFloatIndex_matches {x y : NodeIndex} (hx : NodeAlike w x y) {tok tok' : Token}
    (intPart fracPart : Bytes) :
    Matches w f (NodeAlike w) (parseFloatIndex x tok intPart fracPart)
      (parseFloatIndex y tok' intPart fracPart) := by
  unfold parseFloatIndex
  refine Matches.advance.bind fun _ _ _ => ?_
  refine (allocTupleIndex_matches hx _).bind fun z z' hz => ?_
  split
  · exact allocTupleIndex_matches hz _
  · exact Matches.pure hz

theorem parseField_matches {x y : NodeIndex} (hx : NodeAlike w x y) :
    Matches w f (NodeAlike w) (parseField x) (parseField y) := by
  unfold parseField
  refine (Names.expectAndIntern (by decide) (by decide)).bind fun field field' => ?_
  refine (Matches.spanOf hx).bind fun _ _ _ => ?_
  refine Matches.previous.bind fun _ _ _ => ?_
  exact Matches.allocPackedNone List.mem_cons_self ⟨rfl, by simp⟩ (.cons hx .nil)

theorem parseDot_matches {x y : NodeIndex} (hx : NodeAlike w x y) :
    Matches w f (NodeAlike w) (parseDot x) (parseDot y) := by
  unfold parseDot
  refine Matches.advance.bind fun _ _ _ => ?_
  refine (Matches.check _).bind ?_
  rintro b _ rfl
  split
  · refine Matches.advance.bind fun tok tok' htok => ?_
    refine (Matches.textOf htok.2).bind fun text text' htext => ?_
    rw [htext.eq]
    exact allocTupleIndex_matches hx _
  · refine floatIndex_matches.bind fun r r' hr => ?_
    cases r with
    | none =>
      cases r' with
      | none => exact parseField_matches hx
      | some r' => cases hr
    | some r =>
      cases r' with
      | none => cases hr
      | some r' =>
        obtain ⟨tok, parts⟩ := r
        obtain ⟨tok', parts'⟩ := r'
        obtain rfl : parts' = parts := Option.some.inj hr
        exact parseFloatIndex_matches hx _ _

theorem parsePostfixIndex_matches (hrec : Recursive w rec) {x y : NodeIndex}
    (hx : NodeAlike w x y) :
    Matches w f (NodeAlike w) (parsePostfixIndex n rec x) (parsePostfixIndex n rec y) := by
  unfold parsePostfixIndex
  refine Matches.advance.bind fun _ _ _ => ?_
  refine (Matches.spanOf hx).bind fun _ _ _ => ?_
  have hindices : Matches w f (KidsAlike w)
      (withStructLit true do
        let first ← rec (.expr 0)
        parseMore n [first] isRSquare (rec (.expr 0)))
      (withStructLit true do
        let first ← rec (.expr 0)
        parseMore n [first] isRSquare (rec (.expr 0))) := by
    refine Matches.withStructLit ?_
    refine (hrec (.expr 0) _).bind fun first first' hfirst => ?_
    exact parseMore_matches _ (hrec (.expr 0) _) (.cons hfirst .nil)
  refine hindices.bind fun indices indices' hindices => ?_
  rw [hindices.length_eq]
  refine (Matches.expect (by decide) ?_).bind fun _ _ _ => ?_
  · split <;> decide
  · refine Matches.allocPlain ?_ (.cons hx hindices)
    split <;> rfl

theorem parseCall_matches (hrec : Recursive w rec) {x y : NodeIndex} (hx : NodeAlike w x y) :
    Matches w f (NodeAlike w) (parseCall n rec x) (parseCall n rec y) := by
  unfold parseCall
  refine (parseArgList_matches hrec f).bind fun args args' hargs => ?_
  refine (Matches.spanOf hx).bind fun _ _ _ => (Matches.spanOf hargs).bind fun _ _ _ => ?_
  exact Matches.allocPlain rfl (.cons hx (.cons hargs .nil))

theorem parsePropagate_matches {x y : NodeIndex} (hx : NodeAlike w x y) :
    Matches w f (NodeAlike w) (parsePropagate x) (parsePropagate y) := by
  unfold parsePropagate
  refine Matches.advance.bind fun _ _ _ => ?_
  refine (Matches.spanOf hx).bind fun _ _ _ => Matches.previous.bind fun _ _ _ => ?_
  exact Matches.allocPlain rfl (.cons hx .nil)

theorem parseCast_matches (hrec : Recursive w rec) {x y : NodeIndex} (hx : NodeAlike w x y) :
    Matches w f (NodeAlike w) (parseCast rec x) (parseCast rec y) := by
  unfold parseCast
  refine Matches.advance.bind fun _ _ _ => ?_
  refine (hrec .type f).bind fun type type' htype => ?_
  refine (Matches.spanOf hx).bind fun _ _ _ => (Matches.spanOf htype).bind fun _ _ _ => ?_
  exact Matches.allocPlain rfl (.cons hx (.cons htype .nil))

theorem postfixTurn_matches (hrec : Recursive w rec) {x y : NodeIndex} (hx : NodeAlike w x y) :
    Matches w f (TurnAlike (NodeAlike w) (NodeAlike w)) (postfixTurn n rec x)
      (postfixTurn n rec y) := by
  unfold postfixTurn
  refine Matches.peek.bind ?_
  rintro k _ rfl
  split
  · exact (parseCall_matches hrec hx).bind fun _ _ h => Matches.pure h
  · exact (parseDot_matches hx).bind fun _ _ h => Matches.pure h
  · exact (parsePostfixIndex_matches hrec hx).bind fun _ _ h => Matches.pure h
  · exact (parsePropagate_matches hx).bind fun _ _ h => Matches.pure h
  · exact (parseCast_matches hrec hx).bind fun _ _ h => Matches.pure h
  · exact Matches.pure hx

theorem parsePostfixOrCallExpr_matches (hrec : Recursive w rec) {x y : NodeIndex}
    (hx : NodeAlike w x y) :
    Matches w f (NodeAlike w) (parsePostfixOrCallExpr n rec x) (parsePostfixOrCallExpr n rec y) := by
  unfold parsePostfixOrCallExpr
  exact Matches.iterate (fun _ _ h => postfixTurn_matches hrec h) n hx

/-! ### The Pratt loop -/

theorem parseInfix_matches (hrec : Recursive w rec) {x y : NodeIndex} (hx : NodeAlike w x y)
    (rightBP : ℤ) :
    Matches w f (TurnAlike (NodeAlike w) (NodeAlike w)) (parseInfix rec rightBP x)
      (parseInfix rec rightBP y) := by
  unfold parseInfix
  refine Matches.advance.bind fun op op' hop => ?_
  refine (hrec (.expr _) f).bind fun rhs rhs' hrhs => ?_
  refine (Matches.kindOf hrhs).bind ?_
  rintro kind _ rfl
  split
  · exact Matches.pure hrhs
  · refine (Matches.spanOf hx).bind fun _ _ _ => (Matches.spanOf hrhs).bind fun _ _ _ => ?_
    refine (Matches.allocOperator rfl hop.1 (.cons hx (.cons hrhs .nil))).bind fun _ _ h => ?_
    exact Matches.pure h

theorem infixTurn_matches (hrec : Recursive w rec) {x y : NodeIndex} (hx : NodeAlike w x y)
    (minBP : ℤ) :
    Matches w f (TurnAlike (NodeAlike w) (NodeAlike w)) (infixTurn n rec minBP x)
      (infixTurn n rec minBP y) := by
  unfold infixTurn
  refine (parsePostfixOrCallExpr_matches hrec hx).bind fun lhs lhs' hlhs => ?_
  refine Matches.peek.bind ?_
  rintro k _ rfl
  dsimp only
  split
  · exact Matches.pure hlhs
  · exact parseInfix_matches hrec hlhs _

end Eter.Parser
