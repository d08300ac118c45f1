import Eter.TwinStmts
import Eter.ParseDecls

/-!
# Two runs of declarations and source files
-/

namespace Eter.Parser
open Stateful Diag NodePool

variable {w : Twin} {f : Frame} {n : ℕ} {rec : Rec}

/-! ### Functions -/

theorem isSelfParam_matches {name name' : InternedStr} (hmem : ⟨name, name', false⟩ ∈ f.names) :
    Matches w f Eq (isSelfParam name) (isSelfParam name') := by
  unfold isSelfParam
  refine (Matches.getText hmem).bind ?_
  rintro text _ rfl
  refine (Matches.check _).bind ?_
  rintro colon _ rfl
  refine (Matches.check _).bind ?_
  rintro paren _ rfl
  refine (Matches.check _).bind ?_
  rintro comma _ rfl
  exact Matches.pure rfl

theorem parseParamType_matches (hrec : Recursive w rec) {name name' : InternedStr}
    (hmem : ⟨name, name', false⟩ ∈ f.names) :
    Matches w f (NodeAlike w) (parseParamType rec name) (parseParamType rec name') := by
  unfold parseParamType
  refine (isSelfParam_matches hmem).bind ?_
  rintro b _ rfl
  split
  · unfold synthesiseSelf
    refine Matches.previous.bind fun _ _ _ => ?_
    refine (Names.internSame _).bind fun text text' => ?_
    exact Matches.allocName List.mem_cons_self ⟨rfl, by simp⟩ .nil
  · refine (Matches.expect (by decide) (by decide)).bind fun _ _ _ => ?_
    exact hrec .type f

/-- Gaps in the text may differ, and are not compared. -/
theorem atGap_matches : Matches w f (fun _ _ => True) atGap atGap := by
  intro s t hI a s' ha
  cases ha
  exact ⟨_, t, rfl, trivial, hI⟩

theorem markGap_matches (gap gap' : Bool) :
    Matches w f (fun _ _ => True) (markGap gap) (markGap gap') := by
  have hmark : ∀ (gap : Bool) (s : PState), ∃ slips,
      markGap gap s = .ok ((), { s with slips := slips }) ∧
        slips.count .bareUnsafe = s.slips.count .bareUnsafe := by
    intro gap s
    cases gap with
    | true => exact ⟨_, rfl, by simp⟩
    | false => exact ⟨_, rfl, rfl⟩
  intro s t hI a s' ha
  obtain ⟨slips, hs, hcount⟩ := hmark gap s
  obtain ⟨slips', ht, -⟩ := hmark gap' t
  obtain ⟨es, es', hes, hes', halike, hlack⟩ := hI.errors
  rw [hs] at ha
  cases ha
  exact ⟨(), _, ht, trivial,
    { hI with errors := ⟨es, es', hes, hes', halike, hcount.trans hlack⟩ }⟩

theorem parseParam_matches (hrec : Recursive w rec) : Twins w (parseParam rec) := by
  intro f
  unfold parseParam
  refine atGap_matches.bind fun gap gap' _ => Matches.peekToken.bind fun _ _ _ => ?_
  refine Matches.parseRegime.bind ?_
  rintro r _ rfl
  refine (Names.expectName (by decide)).bind fun name name' => ?_
  refine (parseParamType_matches hrec List.mem_cons_self).bind fun type type' htype => ?_
  refine (markGap_matches gap gap').bind fun _ _ _ => ?_
  refine Matches.previous.bind fun _ _ _ => ?_
  exact Matches.allocPacked List.mem_cons_self ⟨rfl, by simp⟩ (.cons htype .nil)

theorem parseParams_matches (hrec : Recursive w rec) :
    Matches w f (KidsAlike w) (parseParams n rec) (parseParams n rec) := by
  unfold parseParams
  refine (Matches.check _).bind ?_
  rintro b _ rfl
  split
  · exact Matches.pure .nil
  · refine (parseParam_matches hrec f).bind fun first first' hfirst => ?_
    exact parseMore_matches _ (parseParam_matches hrec f) (.cons hfirst .nil)

theorem parseParamList_matches (hrec : Recursive w rec) : Twins w (parseParamList n rec) := by
  intro f
  unfold parseParamList
  refine (Matches.expect (by decide) (by decide)).bind fun _ _ _ => ?_
  refine (parseParams_matches hrec).bind fun params params' hparams => ?_
  refine (Matches.expect (by decide) (by decide)).bind fun _ _ _ => ?_
  exact Matches.allocPlain rfl hparams

theorem reportArrow_matches : Matches w f (fun _ _ => True) reportArrow reportArrow := by
  unfold reportArrow
  refine Matches.peekToken.bind fun tok tok' htok => ?_
  refine (Matches.report (by rfl) ?_).bind fun _ _ _ => ?_
  · show fills ["found"] .ExpectedReturnTypeColon = true
    decide
  · exact Matches.advance.bind fun _ _ _ => Matches.pure trivial

theorem parseReturnType_matches (hrec : Recursive w rec) :
    Matches w f (KidsAlike w) (parseReturnType rec) (parseReturnType rec) := by
  unfold parseReturnType
  refine (Matches.consume (by decide)).bind ?_
  rintro b _ rfl
  split
  · exact (hrec .type f).bind fun _ _ h => Matches.pure (.cons h .nil)
  · refine (Matches.check _).bind ?_
    rintro b _ rfl
    split
    · refine reportArrow_matches.bind fun _ _ _ => ?_
      exact (hrec .type f).bind fun _ _ h => Matches.pure (.cons h .nil)
    · exact Matches.pure .nil

theorem parseFnBody_matches (hrec : Recursive w rec) (expectBody : Bool) :
    Twins w (parseFnBody rec expectBody) := by
  intro f
  unfold parseFnBody
  split
  · exact hrec .block f
  · refine (Matches.expect (by decide) (by decide)).bind fun _ _ _ => ?_
    exact Matches.pure .null

/-- A token that sets a flag. -/
theorem consumeUnsafe_matches (flags : ℕ) :
    Matches w f Eq (consumeUnsafe flags) (consumeUnsafe flags) := by
  unfold consumeUnsafe
  refine (Matches.consume (by decide)).bind ?_
  rintro b _ rfl
  split
  · exact Matches.pure rfl
  · exact Matches.pure rfl

theorem parseFnRest_matches (hrec : Recursive w rec) {docs docs' : List NodeIndex}
    (hdocs : KidsAlike w docs docs') (flags : ℕ) (expectBody : Bool) {startPos startPos' : ℕ} :
    Matches w f (NodeAlike w) (parseFnRest n rec docs flags expectBody startPos)
      (parseFnRest n rec docs' flags expectBody startPos') := by
  unfold parseFnRest
  refine Matches.parseRegime.bind ?_
  rintro r _ rfl
  refine (Names.expectName (by decide)).bind fun name name' => ?_
  refine (parseGenericParams_matches hrec _).bind fun generics generics' hgenerics => ?_
  refine (parseParamList_matches hrec _).bind fun params params' hparams => ?_
  refine (parseReturnType_matches hrec).bind fun ret ret' hret => ?_
  refine (parseFnBody_matches hrec expectBody _).bind fun body body' hbody => ?_
  refine Matches.previous.bind fun _ _ _ => ?_
  exact Matches.allocPacked List.mem_cons_self ⟨rfl, by simp⟩
    ((((hdocs.append hgenerics.pushed).push hparams).append hret).push hbody)

theorem parseFnDecl_matches (hrec : Recursive w rec) {docs docs' : List NodeIndex}
    (hdocs : KidsAlike w docs docs') (flags : ℕ) (expectBody : Bool) :
    Matches w f (NodeAlike w) (parseFnDecl n rec docs flags expectBody)
      (parseFnDecl n rec docs' flags expectBody) := by
  unfold parseFnDecl
  refine Matches.peekToken.bind fun _ _ _ => (consumeUnsafe_matches flags).bind ?_
  rintro flags _ rfl
  refine (Matches.expect (by decide) (by decide)).bind fun _ _ _ => ?_
  exact parseFnRest_matches hrec hdocs flags expectBody

/-! ### Structures, enumerations, and unions -/

theorem fieldColon_matches :
    Matches w f Eq parseStructField.fieldColon parseStructField.fieldColon := by
  unfold parseStructField.fieldColon
  refine (Matches.consume (by decide)).bind ?_
  rintro b _ rfl
  split
  · exact Matches.pure rfl
  · refine Matches.peekToken.bind fun found found' hfound => ?_
    refine (Matches.report (by rfl) ?_).bind fun _ _ _ => Matches.check _
    show fills ["context", "found"] .ExpectedColon = true
    decide

/-- The diagnostic of a missing name. -/
theorem reportName_matches {loc loc' : Span} {construct : String} {k : Token.Kind} :
    Matches w f (fun _ _ => True)
      (report (arg (arg (diag loc .ExpectedName) "construct" construct) "found" (getTokenName k)))
      (report (arg (arg (diag loc' .ExpectedName) "construct" construct) "found"
        (getTokenName k))) := by
  have hfill : fills ["construct", "found"] .ExpectedName = true := by decide
  exact Matches.report rfl hfill

theorem parseStructField_matches (hrec : Recursive w rec) : Twins w (parseStructField rec) := by
  intro f
  unfold parseStructField
  refine Matches.peekToken.bind fun _ _ _ => Matches.parseRegime.bind ?_
  rintro r _ rfl
  refine (Matches.check _).bind ?_
  rintro b _ rfl
  split
  · refine Matches.peekToken.bind fun _ _ _ => Matches.peek.bind ?_
    rintro k _ rfl
    exact reportName_matches.bind fun _ _ _ => Matches.makeErrorNode
  · refine Matches.advance.bind fun tok tok' htok => ?_
    refine (Names.internText htok.2).bind fun name name' => ?_
    refine fieldColon_matches.bind ?_
    rintro b _ rfl
    split
    · refine (hrec .type _).bind fun type type' htype => Matches.previous.bind fun _ _ _ => ?_
      exact Matches.allocPacked List.mem_cons_self ⟨rfl, by simp⟩ (.cons htype .nil)
    · exact Matches.previous.bind fun _ _ _ => Matches.makeErrorNode

theorem parseTupleVariant_matches (hrec : Recursive w rec) {startPos startPos' : ℕ}
    {name name' : InternedStr} (hmem : ⟨name, name', false⟩ ∈ f.names) :
    Matches w f (NodeAlike w) (parseTupleVariant n rec startPos name)
      (parseTupleVariant n rec startPos' name') := by
  unfold parseTupleVariant
  refine (parseCommaSeparated_matches _ (hrec .type f) .nil).bind fun types types' htypes => ?_
  refine (Matches.expect (by decide) (by decide)).bind fun _ _ _ => ?_
  exact Matches.allocPacked hmem ⟨rfl, by simp⟩ htypes

theorem parseStructVariant_matches (hrec : Recursive w rec) {startPos startPos' : ℕ}
    {name name' : InternedStr} (hmem : ⟨name, name', false⟩ ∈ f.names) :
    Matches w f (NodeAlike w) (parseStructVariant n rec startPos name)
      (parseStructVariant n rec startPos' name') := by
  unfold parseStructVariant
  refine (parseCommaSeparated_matches _ (parseStructField_matches hrec f) .nil).bind
    fun fields fields' hfields => ?_
  refine (Matches.expect (by decide) (by decide)).bind fun _ _ _ => ?_
  exact Matches.allocPacked hmem ⟨rfl, by simp⟩ hfields

theorem parseEnumVariant_matches (hrec : Recursive w rec) : Twins w (parseEnumVariant n rec) := by
  intro f
  unfold parseEnumVariant parseConstExpr
  refine Matches.peekToken.bind fun _ _ _ => (Matches.check _).bind ?_
  rintro b _ rfl
  split
  · refine Matches.peekToken.bind fun _ _ _ => Matches.peek.bind ?_
    rintro k _ rfl
    exact reportName_matches.bind fun _ _ _ => Matches.makeErrorNode
  · refine Matches.advance.bind fun tok tok' htok => ?_
    refine (Names.internText htok.2).bind fun name name' => ?_
    refine (Matches.consume (by decide)).bind ?_
    rintro b _ rfl
    split
    · exact parseTupleVariant_matches hrec List.mem_cons_self
    · refine (Matches.consume (by decide)).bind ?_
      rintro b _ rfl
      split
      · exact parseStructVariant_matches hrec List.mem_cons_self
      · refine (Matches.consume (by decide)).bind ?_
        rintro b _ rfl
        split
        · refine (hrec (.expr 0) _).bind fun value value' hvalue => ?_
          refine Matches.previous.bind fun _ _ _ => ?_
          exact Matches.allocPacked List.mem_cons_self ⟨rfl, by simp⟩ (.cons hvalue .nil)
        · refine Matches.previous.bind fun _ _ _ => ?_
          exact Matches.allocPacked List.mem_cons_self ⟨rfl, by simp⟩ .nil

theorem expectArgs_context {context : String} (h : context ≠ "") :
    expectArgs context = ["tok", "keyword", "found", "context"] := by
  unfold expectArgs
  rw [if_neg h]
  rfl

theorem parseBodyDecl_matches (hrec : Recursive w rec) {keyword : Token.Kind} {kind : NodeKind}
    {construct : String} {el : ParserM NodeIndex} {docs docs' : List NodeIndex} {flags : ℕ}
    (hkey : keyword ≠ .eof) (henc : encodingOf kind = .name)
    (hopen : "to start " ++ construct ++ " body" ≠ "")
    (hclose : "to close " ++ construct ++ " body" ≠ "") (hel : Twins w el)
    (hdocs : KidsAlike w docs docs') :
    Matches w f (NodeAlike w) (parseBodyDecl keyword kind construct n rec el docs flags)
      (parseBodyDecl keyword kind construct n rec el docs' flags) := by
  unfold parseBodyDecl
  refine (Matches.expect hkey (by decide)).bind fun _ _ _ => ?_
  refine (Names.expectName (by decide)).bind fun name name' => ?_
  refine (parseGenericParams_matches hrec _).bind fun generics generics' hgenerics => ?_
  refine (Matches.expect (by decide) ?_).bind fun _ _ _ => ?_
  · rw [expectArgs_context hopen]
    decide
  refine (parseCommaSeparated_matches _ (hel _) (hdocs.append hgenerics.pushed)).bind
    fun kids kids' hkids => ?_
  refine (Matches.expect (by decide) ?_).bind fun _ _ _ => ?_
  · rw [expectArgs_context hclose]
    decide
  exact Matches.allocName List.mem_cons_self ⟨henc, by simp⟩ hkids

/-! ### Modules, uses, and constants -/

theorem parseModBody_matches (hrec : Recursive w rec) {start start' : Span}
    {name name' : InternedStr} (hmem : ⟨name, name', false⟩ ∈ f.names)
    {docs docs' : List NodeIndex} (hdocs : KidsAlike w docs docs') (flags : ℕ) :
    Matches w f (NodeAlike w) (parseModBody n rec start name docs flags)
      (parseModBody n rec start' name' docs' flags) := by
  unfold parseModBody
  refine (parseUntil_matches _ (hrec .topLevelDecl f) hdocs).bind fun kids kids' hkids => ?_
  refine (Matches.expect (by decide) (by decide)).bind fun _ _ _ => ?_
  exact Matches.allocName hmem ⟨rfl, by simp⟩ hkids

theorem parseModDecl_matches (hrec : Recursive w rec) {docs docs' : List NodeIndex}
    (hdocs : KidsAlike w docs docs') (flags : ℕ) :
    Matches w f (NodeAlike w) (parseModDecl n rec docs flags) (parseModDecl n rec docs' flags) := by
  unfold parseModDecl
  refine (Matches.expect (by decide) (by decide)).bind fun _ _ _ => ?_
  refine (Names.expectName (by decide)).bind fun name name' => ?_
  refine (Matches.consume (by decide)).bind ?_
  rintro b _ rfl
  split
  · exact parseModBody_matches hrec List.mem_cons_self hdocs flags
  · refine (Matches.check _).bind ?_
    rintro b _ rfl
    split
    · refine Matches.peekToken.bind fun _ _ _ => Matches.advance.bind fun _ _ _ => ?_
      exact Matches.allocName List.mem_cons_self ⟨rfl, by simp⟩ hdocs
    · refine Matches.peekToken.bind fun _ _ _ => ?_
      refine (Matches.addError (by decide)).bind fun _ _ _ => ?_
      exact Matches.peekToken.bind fun _ _ _ => Matches.makeErrorNode

/-- Spans from the start of token `i` to the end of the same later token. -/
def SpanFrom (w : Twin) (i : ℕ) (a b : Span) : Prop :=
  ∃ j, i ≤ j ∧ a = w.left.hull i j ∧ b = w.right.hull (i + w.shift) (j + w.shift)

theorem SpanFrom.slice {i : ℕ} {a b : Span} (h : SpanFrom w i a b) : SpanAlike w true a b := by
  obtain ⟨j, hij, ha, hb⟩ := h
  exact ⟨i, j, hij, by simp, ha, hb⟩

/-- The span may be extended to any later token. -/
theorem SpanFrom.extend {i j : ℕ} {a b : Span} (h : SpanFrom w i a b) (hij : i ≤ j) :
    SpanFrom w i ⟨a.start, (w.left.tokenAt j).tokenSpan.end⟩
      ⟨b.start, (w.right.tokenAt (j + w.shift)).tokenSpan.end⟩ := by
  obtain ⟨k, -, rfl, rfl⟩ := h
  exact ⟨j, hij, rfl, rfl⟩

theorem usePathTurn_matches {i : ℕ} (hi : i + 1 ≤ f.past) {a b : Span} (h : SpanFrom w i a b) :
    Matches w f (TurnAlike (SpanFrom w i) (SpanFrom w i)) (usePathTurn a) (usePathTurn b) := by
  unfold usePathTurn
  refine (Matches.check _).bind ?_
  rintro c _ rfl
  split
  · exact Matches.pure h
  · refine (Matches.peekAt 1).bind ?_
    rintro k _ rfl
    split
    · exact Matches.pure h
    · refine (Matches.peekAt 1).bind ?_
      rintro k _ rfl
      split
      · exact Matches.pure h
      · refine Matches.advance.bind fun _ _ _ => Matches.advance.bind fun _ _ _ => ?_
        exact Matches.bindPrevious (by omega) fun j hj => Matches.pure (h.extend (by omega))

theorem Alike.rehold {p : NamePair} {s t : PState} (h : Alike w f s t) (hp : p ∈ f.names) :
    Alike w (f.hold p) s t := by
  refine h.weaken rfl le_rfl fun q hq => ?_
  rcases List.mem_cons.mp hq with rfl | hq
  · exact hp
  · exact hq

/-- The full path is the slice up to the end of the declaration's last name. -/
theorem parseUseTail_relates {i : ℕ} (hi : i + 1 ≤ f.past) {a b : Span} (h : SpanFrom w i a b)
    {path path' : InternedStr} (hmem : ⟨path, path', true⟩ ∈ f.names) :
    Relates (Alike w f) (parseUseTail a path) (parseUseTail b path')
      fun r s r' t => Alike w (f.hold ⟨r.2, r'.2, true⟩) s t := by
  -- the slice up to the previous token is interned
  have hslice : ∀ {f' : Frame}, f'.lit = f.lit → f'.names = f.names → f.past ≤ f'.past →
      Relates (Alike w f')
        (do
          let endSpan := (← previous).tokenSpan
          pure (endSpan, ← internText ⟨a.start, endSpan.end⟩))
        (do
          let endSpan := (← previous).tokenSpan
          pure (endSpan, ← internText ⟨b.start, endSpan.end⟩))
        fun r s r' t => Alike w (f.hold ⟨r.2, r'.2, true⟩) s t := by
    intro f' hlit hnames hpast
    refine Relates.bindPrevious (by omega) fun j hj => ?_
    refine Relates.bind (Names.internText (h.extend (j := j) (by omega)).slice) fun name name' => ?_
    refine Relates.pure fun s t hI => hI.weaken hlit.symm (by show f.past ≤ j + 1; omega) ?_
    intro p hp
    rcases List.mem_cons.mp hp with rfl | hp
    · exact List.mem_cons_self
    · exact List.mem_cons_of_mem _ (hnames ▸ hp)
  unfold parseUseTail
  refine (Matches.check _).before ?_
  rintro c _ rfl
  split
  · refine Matches.advance.before fun _ _ _ => ?_
    refine Relates.bindConsume (by decide) (fun j hj => ?_) ?_
    · exact hslice rfl rfl (Nat.le_succ_of_le hj)
    · refine Matches.peekToken.before fun _ _ _ => ?_
      refine (Matches.addError (by decide)).before fun _ _ _ => ?_
      exact Relates.pure fun s t hI => hI.rehold hmem
  · refine Relates.bindConsume (by decide) (fun j hj => ?_) ?_
    · refine Relates.bind (Names.expectAndIntern (by decide) (by decide)) fun _ _ => ?_
      have hbeyond := @hslice (f.beyond (j + 1)) rfl rfl (Nat.le_succ_of_le hj)
      exact hbeyond.mono (fun _ _ hI => hI.unhold) fun _ _ _ _ hJ => hJ
    · exact Relates.pure fun s t hI => hI.rehold hmem

theorem parseUseDecl_matches {docs docs' : List NodeIndex} (hdocs : KidsAlike w docs docs')
    (flags i : ℕ) :
    MatchesAt w f i .kw_use (NodeAlike w) (parseUseDecl n docs flags)
      (parseUseDecl n docs' flags) := by
  unfold parseUseDecl
  refine MatchesAt.expect (by decide) ?_
  refine (Matches.expect (by decide) (by decide)).bind fun _ _ _ => ?_
  refine Matches.bindPrevious (Nat.le_add_left 1 i) fun j hj => ?_
  have hstart : SpanFrom w j (w.left.tokenAt j).tokenSpan (w.right.tokenAt (j + w.shift)).tokenSpan :=
    ⟨j, le_rfl, rfl, rfl⟩
  have hpast : j + 1 ≤ ((f.beyond (i + 1)).beyond (j + 1)).past := le_rfl
  refine (Matches.iterate (fun _ _ h => usePathTurn_matches hpast h) n hstart).bind
    fun path path' hpath => ?_
  refine (Names.internText hpath.slice).bind fun full full' => ?_
  refine Relates.bindHeld (p := fun tail tail' => ⟨tail.2, tail'.2, true⟩)
    (parseUseTail_relates (f := Frame.hold _ ⟨full, full', true⟩) hpast hpath
      List.mem_cons_self) fun tail tail' => ?_
  refine (Matches.expect (by decide) (by decide)).bind fun _ _ _ => ?_
  exact Matches.allocName List.mem_cons_self ⟨rfl, fun _ => rfl⟩ hdocs

theorem parseConstDecl_matches (hrec : Recursive w rec) {docs docs' : List NodeIndex}
    (hdocs : KidsAlike w docs docs') (flags : ℕ) :
    Matches w f (NodeAlike w) (parseConstDecl rec docs flags) (parseConstDecl rec docs' flags) := by
  unfold parseConstDecl parseConstExpr
  refine (Matches.expect (by decide) (by decide)).bind fun _ _ _ => ?_
  refine (Names.expectName (by decide)).bind fun name name' => ?_
  refine (Matches.expect (by decide) (by decide)).bind fun _ _ _ => ?_
  refine (hrec .type _).bind fun type type' htype => ?_
  refine (Matches.expect (by decide) (by decide)).bind fun _ _ _ => ?_
  refine (hrec (.expr 0) _).bind fun val val' hval => ?_
  refine (Matches.expect (by decide) (by decide)).bind fun _ _ _ => ?_
  refine Matches.previous.bind fun _ _ _ => ?_
  exact Matches.allocName List.mem_cons_self ⟨rfl, by simp⟩
    (hdocs.append (.cons htype (.cons hval .nil)))

/-! ### Traits and implementations -/

theorem resyncMethod_matches {m m' : ℕ} (h : SizeAlike w m m') :
    Matches w f (fun _ _ => True) (resyncMethod m) (resyncMethod m') := by
  unfold resyncMethod
  refine Matches.errorsSize.bind fun k k' hk => ?_
  by_cases hne : k ≠ m
  · rw [if_pos hne, if_pos ((hk.ne_iff h).mp hne)]
    exact Matches.skipUntil _
  · rw [if_neg hne, if_neg fun hne' => hne ((hk.ne_iff h).mpr hne')]
    exact Matches.pure trivial

theorem methods_matches (hrec : Recursive w rec) (expectBody : Bool) {cs cs' : List NodeIndex}
    (h : KidsAlike w cs cs') :
    Matches w f (KidsAlike w) (iterate (methodTurn n rec expectBody) n cs)
      (iterate (methodTurn n rec expectBody) n cs') := by
  refine Matches.iterate (fun as as' has => ?_) n h
  unfold methodTurn
  refine (Matches.check _).bind ?_
  rintro b _ rfl
  refine Matches.atEof.bind ?_
  rintro c _ rfl
  split
  · exact Matches.pure has
  · refine parseDocComments_matches.bind fun docs docs' hdocs => ?_
    refine Matches.errorsSize.bind fun k k' hk => ?_
    refine (parseFnDecl_matches hrec hdocs 0 expectBody).bind fun method method' hmethod => ?_
    exact (resyncMethod_matches hk).bind fun _ _ _ => Matches.pure (has.push hmethod)

theorem parseTraitDecl_matches (hrec : Recursive w rec) {docs docs' : List NodeIndex}
    (hdocs : KidsAlike w docs docs') (flags : ℕ) :
    Matches w f (NodeAlike w) (parseTraitDecl n rec docs flags)
      (parseTraitDecl n rec docs' flags) := by
  unfold parseTraitDecl
  refine (Matches.expect (by decide) (by decide)).bind fun _ _ _ => ?_
  refine (Names.expectName (by decide)).bind fun name name' => ?_
  refine (parseGenericParams_matches hrec _).bind fun generics generics' hgenerics => ?_
  refine (Matches.expect (by decide) (by decide)).bind fun _ _ _ => ?_
  refine (methods_matches hrec false (hdocs.append hgenerics.pushed)).bind
    fun kids kids' hkids => ?_
  refine (Matches.expect (by decide) (by decide)).bind fun _ _ _ => ?_
  exact Matches.allocName List.mem_cons_self ⟨rfl, by simp⟩ hkids

theorem parseImplTypes_matches (hrec : Recursive w rec) :
    Matches w f (KidsAlike w) (parseImplTypes rec) (parseImplTypes rec) := by
  unfold parseImplTypes
  refine (hrec .type f).bind fun first first' hfirst => ?_
  refine (Matches.consume (by decide)).bind ?_
  rintro b _ rfl
  split
  · exact (hrec .type f).bind fun type type' htype =>
      Matches.pure (.cons hfirst (.cons htype .nil))
  · exact Matches.pure (.cons .null (.cons hfirst .nil))

theorem parseImplDecl_matches (hrec : Recursive w rec) {docs docs' : List NodeIndex}
    (hdocs : KidsAlike w docs docs') (flags : ℕ) :
    Matches w f (NodeAlike w) (parseImplDecl n rec docs flags)
      (parseImplDecl n rec docs' flags) := by
  unfold parseImplDecl
  refine (Matches.expect (by decide) (by decide)).bind fun _ _ _ => ?_
  refine (parseGenericParams_matches hrec _).bind fun generics generics' hgenerics => ?_
  refine (parseImplTypes_matches hrec).bind fun types types' htypes => ?_
  refine (Matches.expect (by decide) (by decide)).bind fun _ _ _ => ?_
  refine (methods_matches hrec true ((hdocs.append hgenerics.pushed).append htypes)).bind
    fun kids kids' hkids => ?_
  refine (Matches.expect (by decide) (by decide)).bind fun _ _ _ => ?_
  exact Matches.allocPlain rfl hkids

/-! ### The top level -/

theorem consumePub_matches : Matches w f Eq consumePub consumePub := by
  unfold consumePub
  refine (Matches.consume (by decide)).bind ?_
  rintro b _ rfl
  split
  · exact Matches.pure rfl
  · exact Matches.pure rfl

theorem parseUnsafeDecl_matches (hrec : Recursive w rec) {docs docs' : List NodeIndex}
    (hdocs : KidsAlike w docs docs') (flags : ℕ) :
    Matches w f (NodeAlike w) (parseUnsafeDecl n rec docs flags)
      (parseUnsafeDecl n rec docs' flags) := by
  unfold parseUnsafeDecl
  refine (Matches.peekAt 1).bind ?_
  rintro k _ rfl
  split
  · exact Matches.advance.bind fun _ _ _ => parseFnDecl_matches hrec hdocs _ true
  · exact parseConstDecl_matches hrec hdocs flags

theorem parseBadDecl_matches {docs docs' : List NodeIndex} (hdocs : KidsAlike w docs docs') :
    Matches w f (NodeAlike w) (parseBadDecl docs) (parseBadDecl docs') := by
  unfold parseBadDecl rejectDocs
  refine Matches.peekToken.bind fun tok tok' _ => ?_
  have hreject : Matches w f (fun _ _ => True)
      (if docs ≠ [] then addError tok.tokenSpan .DocCommentNotAllowed else pure ())
      (if docs' ≠ [] then addError tok'.tokenSpan .DocCommentNotAllowed else pure ()) := by
    cases hdocs with
    | nil => exact Matches.pure trivial
    | cons _ _ => exact Matches.addError (by decide)
  refine hreject.bind fun _ _ _ => ?_
  refine (Matches.addError (by decide)).bind fun _ _ _ => ?_
  exact Matches.synchronize.bind fun _ _ _ => Matches.makeErrorNode

theorem parseDecl_matches (hrec : Recursive w rec) {docs docs' : List NodeIndex}
    (hdocs : KidsAlike w docs docs') (flags : ℕ) :
    Matches w f (NodeAlike w) (parseDecl n rec docs flags) (parseDecl n rec docs' flags) := by
  refine Matches.fromToken fun i k => ?_
  unfold parseDecl
  refine MatchesAt.peek ?_
  by_cases huse : k = .kw_use
  · subst huse
    exact parseUseDecl_matches hdocs flags i
  · apply Matches.anywhere
    split
    · exact parseFnDecl_matches hrec hdocs flags true
    · exact parseUnsafeDecl_matches hrec hdocs flags
    · exact parseConstDecl_matches hrec hdocs flags
    · exact parseModDecl_matches hrec hdocs flags
    · exact parseBodyDecl_matches hrec (by decide) rfl (by decide) (by decide)
        (parseStructField_matches hrec) hdocs
    · exact parseBodyDecl_matches hrec (by decide) rfl (by decide) (by decide)
        (parseEnumVariant_matches hrec) hdocs
    · exact parseBodyDecl_matches hrec (by decide) rfl (by decide) (by decide)
        (parseStructField_matches hrec) hdocs
    · exact (huse rfl).elim
    · exact parseTraitDecl_matches hrec hdocs flags
    · exact parseImplDecl_matches hrec hdocs flags
    · exact parseBadDecl_matches hdocs

theorem parseTopLevelDecl_matches (hrec : Recursive w rec) :
    Twins w (parseTopLevelDecl n rec) := by
  intro f
  unfold parseTopLevelDecl
  refine parseDocComments_matches.bind fun docs docs' hdocs => consumePub_matches.bind ?_
  rintro flags _ rfl
  exact parseDecl_matches hrec hdocs flags

/-! ### Whole runs -/

theorem run_recursive (w : Twin) (n : ℕ) : Recursive w (run n) := by
  induction n with
  | zero => exact fun _ _ _ _ _ _ _ ha => nomatch ha
  | succ n ih =>
    intro call
    cases call with
    | expr minBP => exact parseExpr_matches ih minBP
    | type => exact parseType_matches ih
    | pat => exact parsePat_matches ih
    | stmt => exact parseStmt_matches ih
    | block => exact parseBlockExpr_matches ih
    | ifExpr => exact parseIfExpr_matches ih
    | topLevelDecl => exact parseTopLevelDecl_matches ih

theorem decls_matches {cs cs' : List NodeIndex} (h : KidsAlike w cs cs') :
    Matches w f (KidsAlike w) (iterate (sourceTurn (run n)) n cs)
      (iterate (sourceTurn (run n)) n cs') := by
  refine Matches.iterate (fun as as' has => ?_) n h
  unfold sourceTurn
  refine Matches.atEof.bind ?_
  rintro b _ rfl
  split
  · exact Matches.pure has
  · exact (run_recursive w n .topLevelDecl f).bind fun decl decl' hdecl =>
      Matches.pure (has.push hdecl)

theorem parseSourceFile_matches : Twins w (parseSourceFile n) := by
  intro f
  unfold parseSourceFile parseFileDocComments
  refine Matches.peekToken.bind fun _ _ _ => ?_
  refine (parseDocs_matches rfl).bind fun docs docs' hdocs => ?_
  refine (decls_matches hdocs).bind fun kids kids' hkids => Matches.previous.bind fun _ _ _ => ?_
  exact Matches.allocPlain rfl hkids

end Eter.Parser
