import Eter.TwinLoops
import Eter.ParseTypes
import Eter.ParsePats

/-!
# Two runs of types, generic parameters, and patterns
-/

namespace Eter.Parser
open Stateful Diag

variable {w : Twin} {f : Frame} {n : ℕ} {rec : Rec}

/-! ### Types -/

theorem parseTupleType_matches (hrec : Recursive w rec) : Twins w (parseTupleType n rec) := by
  intro f
  unfold parseTupleType
  refine Matches.advance.bind fun _ _ _ => ?_
  refine (parseCommaSeparated_matches _ (hrec .type f) .nil).bind fun types types' htypes => ?_
  refine (Matches.expect (by decide) (by decide)).bind fun _ _ _ => ?_
  exact Matches.allocPlain rfl htypes

theorem parseNamedType_matches : Twins w (parseNamedType n) := by
  refine fun f => Matches.fromToken fun i k => ?_
  unfold parseNamedType
  refine MatchesAt.check _ (MatchesAt.check _ ?_)
  split_ifs with hk
  · refine Matches.anywhere (Matches.peekToken.bind fun _ _ _ => ?_)
    refine (Matches.addError (by decide)).bind fun _ _ _ => ?_
    exact Matches.peekToken.bind fun _ _ _ => Matches.makeErrorNode
  · have hne : k ≠ .eof := by
      rintro rfl
      exact hk (by decide)
    refine MatchesAt.advance hne ?_
    refine (parsePathSegments_matches (Nat.le_refl (i + 1))).bind fun a b hab => ?_
    refine (Names.internText hab.span).bind fun name name' => ?_
    exact Matches.allocName List.mem_cons_self ⟨rfl, fun _ => rfl⟩ .nil

theorem parseArrayType_matches (hrec : Recursive w rec) : Twins w (parseArrayType rec) := by
  intro f
  unfold parseArrayType parseConstExpr
  refine Matches.advance.bind fun _ _ _ => ?_
  refine (hrec .type f).bind fun element element' helement => ?_
  refine (Matches.expect (by decide) (by decide)).bind fun _ _ _ => ?_
  refine (hrec (.expr 0) f).bind fun size size' hsize => ?_
  refine (Matches.expect (by decide) (by decide)).bind fun _ _ _ => ?_
  exact Matches.allocPlain rfl (.cons helement (.cons hsize .nil))

theorem requireDim_matches (empty : Bool) :
    Matches w f (fun _ _ => True) (requireDim empty) (requireDim empty) := by
  unfold requireDim
  split
  · exact Matches.peekToken.bind fun _ _ _ => Matches.addError (by decide)
  · exact Matches.pure trivial

theorem parseTensorType_matches (hrec : Recursive w rec) : Twins w (parseTensorType n rec) := by
  intro f
  unfold parseTensorType parseConstExpr
  refine Matches.advance.bind fun _ _ _ => ?_
  refine (Matches.expect (by decide) (by decide)).bind fun _ _ _ => ?_
  refine (hrec .type f).bind fun element element' helement => ?_
  refine (Matches.expect (by decide) (by decide)).bind fun _ _ _ => ?_
  refine (parseCommaSeparated_matches _ (hrec (.expr 0) f) (.cons helement .nil)).bind
    fun kids kids' hkids => ?_
  rw [hkids.length_eq]
  refine (requireDim_matches _).bind fun _ _ _ => ?_
  refine (Matches.expect (by decide) (by decide)).bind fun _ _ _ => ?_
  exact Matches.allocPlain rfl hkids

theorem parseType_matches (hrec : Recursive w rec) : Twins w (parseType n rec) := by
  intro f
  unfold parseType
  refine (Matches.check _).bind ?_
  rintro b _ rfl
  split
  · exact parseTupleType_matches hrec f
  · refine (Matches.check _).bind ?_
    rintro b _ rfl
    split
    · exact parseArrayType_matches hrec f
    · refine (Matches.check _).bind ?_
      rintro b _ rfl
      split
      · exact parseTensorType_matches hrec f
      · exact parseNamedType_matches f

/-! ### Generics -/

theorem parseBound_matches (hrec : Recursive w rec) : Twins w (parseBound rec) := by
  intro f
  unfold parseBound
  refine (Matches.consume (by decide)).bind ?_
  rintro b _ rfl
  split
  · exact hrec .type f
  · exact Matches.pure .null

theorem parseGenericParam_matches (hrec : Recursive w rec) : Twins w (parseGenericParam rec) := by
  intro f
  unfold parseGenericParam
  refine Matches.peekToken.bind fun _ _ _ => ?_
  refine (Matches.check _).bind ?_
  rintro b _ rfl
  split
  · refine Matches.peekToken.bind fun _ _ _ => ?_
    refine (Matches.addError (by decide)).bind fun _ _ _ => ?_
    exact Matches.peekToken.bind fun _ _ _ => Matches.makeErrorNode
  · refine Matches.advance.bind fun tok tok' htok => ?_
    refine (Names.internText htok.2).bind fun name name' => ?_
    refine (parseBound_matches hrec _).bind fun bound bound' hbound => ?_
    refine Matches.previous.bind fun _ _ _ => ?_
    exact Matches.allocName List.mem_cons_self ⟨rfl, by simp⟩ (.cons hbound .nil)

theorem parseGenericList_matches (hrec : Recursive w rec) :
    Matches w f (KidsAlike w) (parseGenericList n rec) (parseGenericList n rec) := by
  unfold parseGenericList
  refine (Matches.check _).bind ?_
  rintro b _ rfl
  split
  · exact Matches.pure .nil
  · refine (parseGenericParam_matches hrec f).bind fun first first' hfirst => ?_
    exact parseMore_matches _ (parseGenericParam_matches hrec f) (.cons hfirst .nil)

theorem parseGenericParams_matches (hrec : Recursive w rec) :
    Twins w (parseGenericParams n rec) := by
  intro f
  unfold parseGenericParams
  refine (Matches.check _).bind ?_
  rintro b _ rfl
  split
  · exact Matches.pure .null
  · refine Matches.advance.bind fun _ _ _ => ?_
    refine (parseGenericList_matches hrec).bind fun params params' hparams => ?_
    refine (Matches.expect (by decide) (by decide)).bind fun _ _ _ => ?_
    exact Matches.allocPlain rfl hparams

/-! ### Patterns -/

theorem parseFieldPat_matches (hrec : Recursive w rec) : Twins w (parseFieldPat rec) := by
  intro f
  unfold parseFieldPat
  refine (Matches.check _).bind ?_
  rintro b _ rfl
  split
  · refine Matches.peekToken.bind fun _ _ _ => ?_
    exact (Matches.addError (by decide)).bind fun _ _ _ => Matches.makeErrorNode
  · refine Matches.advance.bind fun tok tok' htok => ?_
    refine (Names.internText htok.2).bind fun name name' => ?_
    refine (Matches.consume (by decide)).bind ?_
    rintro b _ rfl
    split
    · refine (hrec .pat _).bind fun pat pat' hpat => ?_
      refine (Matches.spanOf hpat).bind fun _ _ _ => ?_
      exact Matches.allocName List.mem_cons_self ⟨rfl, by simp⟩ (.cons hpat .nil)
    · exact Matches.allocName List.mem_cons_self ⟨rfl, by simp⟩ .nil

theorem parseStructPat_matches (hrec : Recursive w rec) {name name' : InternedStr} {sliced : Bool}
    {start start' : Span} (hmem : ⟨name, name', sliced⟩ ∈ f.names) :
    Matches w f (NodeAlike w) (parseStructPat n rec name start)
      (parseStructPat n rec name' start') := by
  unfold parseStructPat
  refine Matches.advance.bind fun _ _ _ => ?_
  refine (parseCommaSeparated_matches _ (parseFieldPat_matches hrec f) .nil).bind
    fun fields fields' hfields => ?_
  refine (Matches.expect (by decide) (by decide)).bind fun _ _ _ => ?_
  exact Matches.allocName hmem ⟨rfl, fun _ => rfl⟩ hfields

/-- A tuple pattern without a name has `NullStr` for one. -/
theorem parseTuplePat_matches (hrec : Recursive w rec) {name name' : InternedStr}
    {start start' : Span} (hname : PayloadHeld f .TuplePat name name') :
    Matches w f (NodeAlike w) (parseTuplePat n rec name start)
      (parseTuplePat n rec name' start') := by
  unfold parseTuplePat
  refine Matches.advance.bind fun _ _ _ => ?_
  refine (parseCommaSeparated_matches _ (hrec .pat f) .nil).bind fun pats pats' hpats => ?_
  refine (Matches.expect (by decide) (by decide)).bind fun _ _ _ => ?_
  exact Matches.alloc hpats hname

theorem parseNamePat_matches (hrec : Recursive w rec) {i : ℕ} {k : Token.Kind} (hk : k ≠ .eof) :
    MatchesAt w f i k (NodeAlike w) (parseNamePat n rec (w.left.tokenAt i))
      (parseNamePat n rec (w.right.tokenAt (i + w.shift))) := by
  unfold parseNamePat
  refine MatchesAt.textOf (SpanAlike.token w i) ?_
  split
  · refine MatchesAt.advance hk ?_
    exact Matches.allocPlain rfl .nil
  · refine MatchesAt.advance hk ?_
    refine (parsePathSegments_matches (Nat.le_refl (i + 1))).bind fun a b hab => ?_
    refine (Names.internText hab.span).bind fun name name' => ?_
    refine (Matches.check _).bind ?_
    rintro c _ rfl
    split
    · exact parseTuplePat_matches hrec (Or.inr ⟨_, List.mem_cons_self, fun _ => rfl⟩)
    · refine (Matches.check _).bind ?_
      rintro c _ rfl
      split
      · exact parseStructPat_matches hrec List.mem_cons_self
      · exact Matches.allocPacked List.mem_cons_self ⟨rfl, fun _ => rfl⟩ .nil

theorem parseLiteralPat_matches {tok tok' : Token} (h : TokenAlike w tok tok') :
    Matches w f (NodeAlike w) (parseLiteralPat tok) (parseLiteralPat tok') := by
  unfold parseLiteralPat
  refine Matches.advance.bind fun _ _ _ => ?_
  refine (Names.internText h.2).bind fun name name' => ?_
  exact Matches.allocName List.mem_cons_self ⟨rfl, by simp⟩ .nil

theorem parseBadPat_matches {tok tok' : Token} :
    Matches w f (NodeAlike w) (parseBadPat tok) (parseBadPat tok') := by
  unfold parseBadPat
  refine (Matches.addError (by decide)).bind fun _ _ _ => ?_
  exact Matches.skip.bind fun _ _ _ => Matches.makeErrorNode

theorem parsePat_matches (hrec : Recursive w rec) : Twins w (parsePat n rec) := by
  refine fun f => Matches.fromToken fun i k => ?_
  unfold parsePat
  refine MatchesAt.peekToken fun hk => ?_
  rw [w.kind i, hk]
  by_cases hid : k = .identifier
  · rw [if_pos hid, if_pos hid]
    exact parseNamePat_matches hrec (by rw [hid]; decide)
  · rw [if_neg hid, if_neg hid]
    apply Matches.anywhere
    split_ifs
    · exact parseTuplePat_matches hrec (Or.inl ⟨rfl, rfl⟩)
    · exact parseLiteralPat_matches (TokenAlike.at w i)
    · exact parseBadPat_matches

end Eter.Parser
