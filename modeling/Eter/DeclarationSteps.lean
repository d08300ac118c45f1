import Eter.StatementSteps
import Eter.ParseDecls

/-!
# Declarations keep the invariant

A declaration finds its docs among the held nodes.
-/

namespace Eter.Parser
open Stateful Brackets Layout

variable {w : Watch} {b e q n : ℕ} {st : List Bracket} {hs : Held} {s : PState} {rec : Rec}
  {docs : List NodeIndex}

/-! ### Functions -/

theorem isSelfParam_reads {name : InternedStr} {text : Bytes}
    (h : s.interner.get? name = some text) : ∃ r, isSelfParam name s = .ok (r, s) := by
  have hget : getText name s = .ok (text, s) := by
    unfold getText
    rw [h]
  refine ⟨text == ascii "self" && !s.stream.check .colon &&
    (s.stream.check .r_paren || s.stream.check .comma), ?_⟩
  show (getText name s >>= _) = _
  rw [hget]
  rfl

theorem synthesiseSelf_spec (h : Holds w b e q st hs s) :
    Yields synthesiseSelf (fun i s' => Holds w b e q st (hs ++ [(i, .type)]) s') s := by
  unfold synthesiseSelf
  refine Yields.read rfl ((h.intern _).bind fun _ s₁ h₁ => ?_)
  exact h₁.allocLeaf rfl .nil rfl

theorem parseParamType_spec (hrec : Recurses w n rec) (hn : 4 * b + 2 ≤ n)
    (h : Holds w b e q st hs s) {name : InternedStr} {text : Bytes}
    (hname : s.interner.get? name = some text) :
    Yields (parseParamType rec name)
      (fun i s' => Holds w b e q st (hs ++ [(i, .type)]) s') s := by
  obtain ⟨r, hr⟩ := isSelfParam_reads hname
  unfold parseParamType
  refine Yields.read hr ?_
  split_ifs
  · exact synthesiseSelf_spec h
  · refine (h.expect (k := .colon) rfl _ _).bind fun _ s₁ h₁ => ?_
    exact (hrec.type hn).yields h₁.1

theorem markGap_spec (h : Holds w b e q st hs s) (gap : Bool) :
    Yields (markGap gap) (fun _ s' => Holds w b e q st hs s') s := by
  unfold markGap
  split_ifs
  · exact ⟨(), _, rfl, h.slipped _⟩
  · exact Yields.pure h

theorem parseParam_spec (hrec : Recurses w n rec) (hn : 4 * b + 2 ≤ n) :
    Parses w b .param (parseParam rec) := by
  intro b' hb e q st hs s h
  unfold parseParam
  refine Yields.read rfl (Yields.read rfl (h.parseRegime.bind fun r s₁ h₁ => ?_))
  refine (h₁.expectName (k := .identifier) rfl _).bind ?_
  rintro name s₂ ⟨h₂, text, hname⟩
  refine (parseParamType_spec hrec (by omega) h₂ hname).bind fun type s₃ h₃ => ?_
  refine (markGap_spec h₃ _).bind fun _ s₃ h₃ => Yields.read rfl ?_
  exact h₃.allocPlain [(type, .type)] rfl rfl rfl (.one rfl .nil) rfl

theorem parseParams_spec (hrec : Recurses w n rec) (hn : 4 * b + 2 ≤ n)
    (h : Holds w b e q st hs s) :
    Yields (parseParams n rec)
      (fun params s' => Holds w b e q st (hs ++ holding .param params) s') s := by
  have hparam := parseParam_spec hrec hn
  unfold parseParams
  refine Yields.read rfl ?_
  split_ifs
  · exact Yields.pure (by simpa using h)
  · refine (hparam.yields h).bind fun first s₁ h₁ => ?_
    refine (hparam.moreElements (by omega) h₁ [first] _).mono ?_
    rintro _ s₂ ⟨params, rfl, h₂⟩
    simpa [holding] using h₂

theorem parseParamList_spec (hrec : Recurses w n rec) (hn : 4 * b + 2 ≤ n)
    (h : Holds w b e q st hs s) :
    Yields (parseParamList n rec)
      (fun i s' => Holds w b e q st (hs ++ [(i, .paramList)]) s') s := by
  unfold parseParamList
  refine (h.expect (k := .l_paren) rfl _ _).bind fun _ s₁ h₁ => ?_
  refine (parseParams_spec hrec hn h₁.1).bind fun params s₂ h₂ => ?_
  refine (h₂.expect (k := .r_paren) rfl _ _).bind fun _ s₃ h₃ => ?_
  exact h₃.1.allocPlain (holding .param params) rfl rfl (indices_holding params).symm
    (fits_holding params) rfl

theorem reportArrow_spec (h : Holds w b e q st hs s) (hk : s.stream.peek 0 = .arrow) :
    Yields reportArrow (fun _ s' => Holds w b e q st hs s') s := by
  unfold reportArrow
  refine Yields.read rfl ((h.report _).bind ?_)
  rintro _ s₁ ⟨h₁, hs₁⟩
  refine (h₁.advance (k := .arrow) (by rw [hs₁]; exact hk) rfl).bind fun _ s₂ h₂ => ?_
  exact Yields.pure (h₂.weaken (Nat.sub_le b 1) (Nat.le_succ e))

theorem parseReturnType_spec (hrec : Recurses w n rec) (hn : 4 * b + 2 ≤ n)
    (h : Holds w b e q st hs s) :
    Yields (parseReturnType rec) (fun ts s' => ts.length ≤ 1 ∧
      Holds w b e q st (hs ++ holding .type ts) s') s := by
  unfold parseReturnType
  refine (h.consume (k := .colon) rfl).bind ?_
  rintro _ s₁ (⟨rfl, -, h₁⟩ | ⟨rfl, rfl, -⟩)
  · refine ((hrec.type (by omega)).yields h₁).bind fun type s₂ h₂ => ?_
    exact Yields.pure ⟨le_rfl, h₂.more (Nat.sub_le b 1)⟩
  · rw [if_neg (by decide)]
    refine Yields.read rfl ?_
    split_ifs with hc
    · refine (reportArrow_spec h (by simpa [TokenStream.check] using hc)).bind fun _ s₂ h₂ => ?_
      exact ((hrec.type hn).yields h₂).bind fun type s₃ h₃ => Yields.pure ⟨le_rfl, h₃⟩
    · exact Yields.pure ⟨Nat.zero_le 1, by simpa using h⟩

/-- The category of a function declaration. -/
def fnCat (expectBody : Bool) : Cat := if expectBody then .fnDef else .fnSig

theorem parseFnBody_spec (hrec : Recurses w n rec) (hn : 4 * b + 4 ≤ n)
    (h : Holds w b e q st hs s) (expectBody : Bool) :
    Yields (parseFnBody rec expectBody) (fun i s' =>
      (fnCat expectBody).admits .FnDecl (i == NullNode) = true ∧
      Holds w b e q st (hs ++ [(i, .body)]) s') s := by
  unfold parseFnBody
  cases expectBody with
  | true =>
    refine ((hrec.block hn).yields h).mono fun i s' h' => ⟨?_, h'.widen rfl⟩
    obtain ⟨rs, -, hg⟩ := h'.tree
    obtain ⟨j, r, rfl, -⟩ := hg.record_of_held
      (List.mem_append_right _ (List.mem_singleton_self _)) rfl
    rfl
  | false =>
    refine (h.expect (k := .semi) rfl _ _).bind fun _ s₁ h₁ => ?_
    have hnull := h₁.1
    rw [← List.append_nil hs] at hnull
    exact Yields.pure ⟨rfl, by simpa using hnull.holdNull (c := .body) rfl⟩

theorem consumeUnsafe_spec (h : Holds w b e q st hs s) (flags : ℕ) :
    Yields (consumeUnsafe flags) (fun _ s' =>
      s.stream.peek 0 = .kw_unsafe_ ∧ Holds w (b - 1) e q st hs s' ∨
      s.stream.peek 0 ≠ .kw_unsafe_ ∧ s' = s) s := by
  unfold consumeUnsafe
  refine (h.consume (k := .kw_unsafe_) rfl).bind ?_
  rintro _ s₁ (⟨rfl, hk, h₁⟩ | ⟨rfl, rfl, hk⟩)
  · exact Yields.pure (Or.inl ⟨hk, h₁⟩)
  · exact Yields.pure (Or.inr ⟨hk, rfl⟩)

theorem length_pushed (i : NodeIndex) : (pushed i).length ≤ 1 := by
  unfold pushed
  split_ifs <;> simp

theorem parseFnRest_spec (hrec : Recurses w n rec) (hn : 4 * b + 4 ≤ n)
    (h : Holds w b e q st (hs ++ holding .doc docs) s) (flags : ℕ) (expectBody : Bool)
    (startPos : ℕ) :
    Yields (parseFnRest n rec docs flags expectBody startPos)
      (fun i s' => Holds w b e q st (hs ++ [(i, fnCat expectBody)]) s') s := by
  unfold parseFnRest
  refine h.parseRegime.bind fun r s₁ h₁ => ?_
  refine (h₁.expectName (k := .identifier) rfl _).bind fun name s₂ h₂ => ?_
  refine (parseGenericParams_spec hrec (by omega) h₂.1).bind fun generics s₃ h₃ => ?_
  refine (parseParamList_spec hrec (by omega) h₃).bind fun params s₄ h₄ => ?_
  refine (parseReturnType_spec hrec (by omega) h₄).bind ?_
  rintro ret s₅ ⟨hret, h₅⟩
  refine (parseFnBody_spec hrec hn h₅ expectBody).bind ?_
  rintro body s₆ ⟨hadmits, h₆⟩
  refine Yields.read rfl ?_
  refine h₆.allocPlain (holding .doc docs ++ (holding .genericParamList (pushed generics) ++
    (params, .paramList) :: (holding .type ret ++ [(body, .body)]))) (by simp) rfl ?_ ?_ ?_
  · simp [Held.indices, holding, Function.comp_def]
  · refine .many (fun _ => cat_of_mem_holding) (.opt ?_ (fun _ => cat_of_mem_holding)
      (.one rfl (.opt ?_ (fun _ => cat_of_mem_holding) (.one rfl .nil))))
    · simpa using length_pushed generics
    · simpa using hret
  · have hbody : bodyless (docs ++ pushed generics ++ [params] ++ ret ++ [body]) =
        (body == NullNode) := by
      unfold bodyless
      rw [List.getLast?_concat]
      cases body <;> rfl
    rw [hbody]
    exact hadmits

theorem parseFnDecl_spec (hrec : Recurses w n rec) (hn : 4 * b + 4 ≤ n)
    (h : Holds w b e q st (hs ++ holding .doc docs) s) (flags : ℕ) (expectBody : Bool) :
    Yields (parseFnDecl n rec docs flags expectBody) (fun i s' =>
      Holds w b e q st (hs ++ [(i, fnCat expectBody)]) s' ∧
      (s.stream.peek 0 = .kw_fn ∨ s.stream.peek 0 = .kw_unsafe_ →
        Holds w (b - 1) e q st (hs ++ [(i, fnCat expectBody)]) s') ∧
      (s.stream.peek 0 ≠ .kw_fn → s.stream.peek 0 ≠ .kw_unsafe_ →
        Holds w b (e + 1) q st (hs ++ [(i, fnCat expectBody)]) s')) s := by
  unfold parseFnDecl
  refine Yields.read rfl ((consumeUnsafe_spec h flags).bind ?_)
  rintro flags s₁ (⟨hk, h₁⟩ | ⟨hkw, rfl⟩)
  · -- `unsafe` is consumed
    refine (h₁.expect (k := .kw_fn) rfl _ _).bind fun _ s₂ h₂ => ?_
    refine (parseFnRest_spec hrec (by omega) h₂.1 flags expectBody _).mono fun i s' h' => ?_
    exact ⟨h'.more (Nat.sub_le b 1), fun _ => h', fun _ hne => (hne hk).elim⟩
  · by_cases hk : s₁.stream.peek 0 = .kw_fn
    · refine (h.expect_hit hk rfl _ _).bind fun _ s₂ h₂ => ?_
      refine (parseFnRest_spec hrec (by omega) h₂ flags expectBody _).mono fun i s' h' => ?_
      exact ⟨h'.more (Nat.sub_le b 1), fun _ => h', fun hne => (hne hk).elim⟩
    · -- an error is reported, and the rest may consume nothing
      refine (h.expect (k := .kw_fn) rfl _ _).bind fun _ s₂ h₂ => ?_
      refine (parseFnRest_spec hrec hn (h₂.2 hk) flags expectBody _).mono fun i s' h' => ?_
      refine ⟨h'.fewer (Nat.le_succ e), fun hor => ?_, fun _ _ => h'⟩
      exact (hor.elim hk hkw).elim

/-! ### Structures, enumerations, and unions -/

theorem fieldColon_spec (h : Holds w b e q st hs s) :
    Yields parseStructField.fieldColon (fun r s' => Holds w b e q st hs s' ∧
      (r = false → Holds w b (e + 1) q st hs s')) s := by
  unfold parseStructField.fieldColon
  refine (h.consume (k := .colon) rfl).bind ?_
  rintro _ s₁ (⟨rfl, -, h₁⟩ | ⟨rfl, rfl, -⟩)
  · exact Yields.pure ⟨h₁.more (Nat.sub_le b 1), fun h => by cases h⟩
  · refine Yields.read rfl ((h.report _).bind fun _ s₂ h₂ => ?_)
    exact ⟨_, _, rfl, h₂.1.fewer (Nat.le_succ e), fun _ => h₂.1⟩

theorem parseStructField_spec (hrec : Recurses w n rec) (hn : 4 * b + 2 ≤ n) :
    Parses w b .structField (parseStructField rec) := by
  intro b' hb e q st hs s h
  unfold parseStructField
  refine Yields.read rfl (h.parseRegime.bind fun r s₁ h₁ => Yields.read rfl ?_)
  split_ifs with hc
  · refine Yields.read rfl (Yields.read rfl ((h₁.report _).bind fun _ s₂ h₂ => ?_))
    exact (h₂.1.makeErrorNode (by omega) _ rfl).mono fun _ _ h' => h'.fewer (Nat.le_succ e)
  · have hk : s₁.stream.peek 0 = .identifier := by simpa [TokenStream.check] using hc
    have hpos := h₁.pos (by rw [hk]; decide)
    refine (h₁.advance hk rfl).bind fun _ s₂ h₂ => ?_
    refine (h₂.internText _).bind fun name s₃ h₃ => ?_
    refine (fieldColon_spec h₃.1).bind ?_
    rintro colon s₄ ⟨h₄, h₄'⟩
    split_ifs with hcolon
    · refine ((hrec.type (by omega)).yields h₄).bind fun type s₅ h₅ => Yields.read rfl ?_
      exact (h₅.more (Nat.sub_le b' 1)).allocPlain [(type, .type)] rfl rfl rfl (.one rfl .nil) rfl
    · refine Yields.read rfl ?_
      have h₄' := h₄' (by simpa using hcolon)
      refine (h₄'.makeErrorNode (c := .structField) (by omega) _ rfl).mono fun _ _ h' => ?_
      exact h'.weaken (Nat.sub_le b' 1) (Nat.le_succ e)

theorem parseTupleVariant_spec (hrec : Recurses w n rec) (hn : 4 * b + 2 ≤ n)
    (h : Holds w b e q (.paren :: st) hs s) (startPos : ℕ) (name : InternedStr) :
    Yields (parseTupleVariant n rec startPos name)
      (fun i s' => Holds w b e q st (hs ++ [(i, .variant)]) s') s := by
  unfold parseTupleVariant
  refine ((hrec.type hn).commaSeparated (by omega) h []).bind ?_
  rintro types s₁ ⟨_, rfl, h₁⟩
  refine (h₁.expect (k := .r_paren) rfl _ _).bind fun _ s₂ h₂ => ?_
  exact h₂.1.allocPlain (holding .type types) rfl rfl (indices_holding types).symm
    (fits_holding types) rfl

theorem parseStructVariant_spec (hrec : Recurses w n rec) (hn : 4 * b + 2 ≤ n)
    (h : Holds w b e q (.brace :: st) hs s) (startPos : ℕ) (name : InternedStr) :
    Yields (parseStructVariant n rec startPos name)
      (fun i s' => Holds w b e q st (hs ++ [(i, .variant)]) s') s := by
  unfold parseStructVariant
  refine ((parseStructField_spec hrec hn).commaSeparated (by omega) h []).bind ?_
  rintro fields s₁ ⟨_, rfl, h₁⟩
  refine (h₁.expect (k := .r_brace) rfl _ _).bind fun _ s₂ h₂ => ?_
  exact h₂.1.allocPlain (holding .structField fields) rfl rfl (indices_holding fields).symm
    (fits_holding fields) rfl

theorem parseEnumVariant_spec (hrec : Recurses w n rec) (hn : 4 * b + 2 ≤ n) :
    Parses w b .variant (parseEnumVariant n rec) := by
  intro b' hb e q st hs s h
  unfold parseEnumVariant parseConstExpr
  refine Yields.read rfl (Yields.read rfl ?_)
  split_ifs with hc
  · refine Yields.read rfl (Yields.read rfl ((h.report _).bind fun _ s₁ h₁ => ?_))
    exact (h₁.1.makeErrorNode (by omega) _ rfl).mono fun _ _ h' => h'.fewer (Nat.le_succ e)
  · have hk : s.stream.peek 0 = .identifier := by simpa [TokenStream.check] using hc
    refine (h.advance hk rfl).bind fun _ s₁ h₁ => ?_
    refine (h₁.internText _).bind fun name s₂ h₂ => ?_
    replace h₂ := h₂.1.more (Nat.sub_le b' 1)
    refine (h₂.consume (k := .l_paren) rfl).bind ?_
    rintro _ s₃ (⟨rfl, -, h₃⟩ | ⟨rfl, rfl, -⟩)
    · exact parseTupleVariant_spec hrec (by omega) (h₃.more (Nat.sub_le b' 1)) _ _
    rw [if_neg (by decide)]
    refine (h₂.consume (k := .l_brace) rfl).bind ?_
    rintro _ s₃ (⟨rfl, -, h₃⟩ | ⟨rfl, rfl, -⟩)
    · exact parseStructVariant_spec hrec (by omega) (h₃.more (Nat.sub_le b' 1)) _ _
    rw [if_neg (by decide)]
    refine (h₂.consume (k := .eq) rfl).bind ?_
    rintro _ s₃ (⟨rfl, -, h₃⟩ | ⟨rfl, rfl, -⟩)
    · refine ((hrec.expr le_rfl (by omega)).yields (h₃.more (Nat.sub_le b' 1))).bind
        fun value s₄ h₄ => Yields.read rfl ?_
      exact h₄.allocPlain [(value, .expr)] rfl rfl rfl (.present rfl .nil) rfl
    · exact Yields.read rfl (h₂.allocLeaf rfl (.absent .nil) rfl)

theorem parseBodyDecl_spec (hrec : Recurses w n rec) (hn : 4 * b + 4 ≤ n)
    (h : Holds w b e q st (hs ++ holding .doc docs) s) {keyword : Token.Kind}
    (hk : s.stream.peek 0 = keyword) (hsym : symOf keyword = .neutral) {kind : NodeKind} {c : Cat}
    (hplain : isPlain kind = true)
    (hlayout : layoutOf kind = [.many .doc, .opt .genericParamList, .many c])
    (hadmits : ∀ l, Cat.decl.admits kind l = true) {m : ParserM NodeIndex} (hm : Parses w b c m)
    (construct : String) (flags : ℕ) :
    Yields (parseBodyDecl keyword kind construct n rec m docs flags)
      (fun i s' => Holds w (b - 1) e q st (hs ++ [(i, .decl)]) s') s := by
  have hneutral : ∀ st, step (symOf keyword) st = some st := by
    intro st
    rw [hsym]
    rfl
  unfold parseBodyDecl
  refine (h.expect_hit hk (hneutral st) _ _).bind fun _ s₁ h₁ => ?_
  refine (h₁.expectName (k := .identifier) rfl _).bind fun name s₂ h₂ => ?_
  refine (parseGenericParams_spec hrec (by omega) h₂.1).bind fun generics s₃ h₃ => ?_
  refine (h₃.expect (k := .l_brace) rfl _ _).bind fun _ s₄ h₄ => ?_
  have hm' : Parses w (b - 1) c m := fun b' hb' => hm b' (by omega)
  refine (hm'.commaSeparated (by omega) h₄.1 (docs ++ pushed generics)).bind ?_
  rintro _ s₅ ⟨es, rfl, h₅⟩
  refine (h₅.expect (k := .r_brace) rfl _ _).bind fun _ s₆ h₆ => ?_
  refine h₆.1.allocPlain
    (holding .doc docs ++ (holding .genericParamList (pushed generics) ++ holding c es))
    (by simp) hplain (by simp) ?_ (hadmits _)
  rw [hlayout]
  exact .many (fun _ => cat_of_mem_holding) (.opt (by simpa using length_pushed generics)
    (fun _ => cat_of_mem_holding) (fits_holding es))

/-! ### Modules, uses, and constants -/

theorem parseModBody_spec (hrec : Recurses w n rec) (hn : 4 * b + 5 ≤ n)
    (h : Holds w b e q (.brace :: st) (hs ++ holding .doc docs) s) (start : Span)
    (name : InternedStr) (flags : ℕ) :
    Yields (parseModBody n rec start name docs flags)
      (fun i s' => Holds w b e q st (hs ++ [(i, .decl)]) s') s := by
  unfold parseModBody
  refine ((hrec.topLevelDecl hn).elements (by omega) h docs).bind ?_
  rintro _ s₁ ⟨decls, rfl, h₁⟩
  refine (h₁.expect (k := .r_brace) rfl _ _).bind fun _ s₂ h₂ => ?_
  exact h₂.1.allocPlain (holding .doc docs ++ holding .decl decls) (by simp) rfl (by simp)
    (.many (fun _ => cat_of_mem_holding) (fits_holding decls)) rfl

theorem parseModDecl_spec (hrec : Recurses w n rec) (hn : 4 * b + 4 ≤ n)
    (h : Holds w b e q st (hs ++ holding .doc docs) s) (hk : s.stream.peek 0 = .kw_mod)
    (flags : ℕ) :
    Yields (parseModDecl n rec docs flags)
      (fun i s' => Holds w (b - 1) e q st (hs ++ [(i, .decl)]) s') s := by
  have hpos := h.pos (by rw [hk]; decide)
  unfold parseModDecl
  refine (h.expect_hit hk rfl _ _).bind fun _ s₁ h₁ => ?_
  refine (h₁.expectName (k := .identifier) rfl _).bind ?_
  rintro name s₂ ⟨h₂, -⟩
  refine (h₂.consume (k := .l_brace) rfl).bind ?_
  rintro _ s₃ (⟨rfl, -, h₃⟩ | ⟨rfl, rfl, -⟩)
  · exact parseModBody_spec hrec (by omega) (h₃.more (Nat.sub_le _ 1)) _ _ _
  rw [if_neg (by decide)]
  refine Yields.read rfl ?_
  split_ifs with hc
  · have hk₂ : s₃.stream.peek 0 = .semi := by simpa [TokenStream.check] using hc
    refine Yields.read rfl ((h₂.advance hk₂ rfl).bind fun _ s₄ h₄ => ?_)
    exact (h₄.more (Nat.sub_le _ 1)).allocPlain (holding .doc docs) rfl rfl
      (indices_holding docs).symm (fits_holding docs) rfl
  · refine Yields.read rfl ((h₂.addError _ _).bind fun _ s₄ h₄ => Yields.read rfl ?_)
    have hdrop := h₄.1.drop (by omega) (List.sublist_append_left hs (holding .doc docs))
    exact (hdrop.makeErrorNode (by omega) _ rfl).mono fun _ _ h' => h'.fewer (Nat.le_succ e)

theorem usePath_spec (h : Holds w b e q st hs s) (hn : b < n) (span : Span) :
    Yields (iterate usePathTurn n span) (fun _ s' => Holds w b e q st hs s') s := by
  refine Yields.iterate (I := fun v _ s => v ≤ b ∧ Holds w v e q st hs s) ?_ hn ⟨le_rfl, h⟩
  rintro v acc s ⟨hv, h⟩
  unfold usePathTurn
  refine Yields.read rfl ?_
  split_ifs with hc
  · exact Yields.pure (h.more hv)
  · have hk : s.stream.peek 0 = .colon_colon := by simpa [TokenStream.check] using hc
    have hpos := h.pos (by rw [hk]; decide)
    refine Yields.read rfl ?_
    split_ifs with hstar
    · exact Yields.pure (h.more hv)
    · refine Yields.read rfl ?_
      split_ifs with hident
      · exact Yields.pure (h.more hv)
      · refine (h.advance_moved hk rfl).bind ?_
        rintro _ s₁ ⟨rfl, h₁⟩
        have hk₁ : s.moved.stream.peek 0 = .identifier := not_not.mp hident
        refine (h₁.advance hk₁ rfl).bind fun _ s₂ h₂ => Yields.read rfl ?_
        exact Yields.pure ⟨v - 1, by omega, by omega, h₂.more (Nat.sub_le _ 1)⟩

theorem parseUseTail_spec (h : Holds w b e q st hs s) (span : Span) (path : InternedStr) :
    Yields (parseUseTail span path) (fun _ s' => Holds w b e q st hs s') s := by
  unfold parseUseTail
  refine Yields.read rfl ?_
  split_ifs with hc
  · have hk : s.stream.peek 0 = .colon_colon := by simpa [TokenStream.check] using hc
    refine (h.advance hk rfl).bind fun _ s₁ h₁ => ?_
    replace h₁ := h₁.more (Nat.sub_le b 1)
    refine (h₁.consume (k := .star) rfl).bind ?_
    rintro _ s₂ (⟨rfl, -, h₂⟩ | ⟨rfl, rfl, -⟩)
    · refine Yields.read rfl ((h₂.internText _).bind fun _ s₃ h₃ => ?_)
      exact Yields.pure (h₃.1.more (Nat.sub_le b 1))
    · refine Yields.read rfl ((h₁.addError _ _).bind fun _ s₃ h₃ => ?_)
      exact Yields.pure (h₃.1.fewer (Nat.le_succ e))
  · refine (h.consume (k := .kw_as) rfl).bind ?_
    rintro _ s₁ (⟨rfl, -, h₁⟩ | ⟨rfl, rfl, -⟩)
    · refine (h₁.expectAndIntern (k := .identifier) rfl _).bind fun _ s₂ h₂ => Yields.read rfl ?_
      refine (h₂.internText _).bind fun _ s₃ h₃ => ?_
      exact Yields.pure (h₃.1.more (Nat.sub_le b 1))
    · exact Yields.pure h

theorem parseUseDecl_spec (hn : b < n) (h : Holds w b e q st (hs ++ holding .doc docs) s)
    (hk : s.stream.peek 0 = .kw_use) (flags : ℕ) :
    Yields (parseUseDecl n docs flags)
      (fun i s' => Holds w (b - 1) e q st (hs ++ [(i, .decl)]) s') s := by
  unfold parseUseDecl
  refine (h.expect_hit hk rfl _ _).bind fun _ s₁ h₁ => ?_
  refine (h₁.expect (k := .identifier) rfl _ _).bind fun _ s₂ h₂ => Yields.read rfl ?_
  refine (usePath_spec h₂.1 (by omega) _).bind fun span s₃ h₃ => ?_
  refine (h₃.internText _).bind fun path s₄ h₄ => ?_
  refine (parseUseTail_spec h₄.1 _ _).bind fun tail s₅ h₅ => ?_
  refine (h₅.expect (k := .semi) rfl _ _).bind fun _ s₆ h₆ => ?_
  exact h₆.1.allocPlain (holding .doc docs) rfl rfl (indices_holding docs).symm
    (fits_holding docs) rfl

/-- Also before `unsafe`, which the value's expression consumes. -/
theorem parseConstDecl_spec (hrec : Recurses w n rec) (hn : 4 * b + 2 ≤ n)
    (h : Holds w b e q st (hs ++ holding .doc docs) s)
    (hk : isSync (s.stream.peek 0) = false ∧ s.stream.peek 0 ≠ .eof) (flags : ℕ) :
    Yields (parseConstDecl rec docs flags)
      (fun i s' => Holds w (b - 1) e q st (hs ++ [(i, .decl)]) s') s := by
  have hb : w.tokens.length - s.stream.cursor ≤ b := by
    have hbud := h.budget
    omega
  unfold parseConstDecl parseConstExpr
  refine (h.exact.expect (k := .kw_const) rfl _ _).bind fun _ s₁ h₁ => ?_
  refine (h₁.1.expectName (k := .identifier) rfl _).bind fun name s₂ h₂ => ?_
  refine (h₂.1.expect (k := .colon) rfl _ _).bind fun _ s₃ h₃ => ?_
  refine ((hrec.type (by omega)).yields h₃.1).bind fun type s₄ h₄ => ?_
  refine (h₄.expect (k := .eq) rfl _ _).bind fun _ s₅ h₅ => ?_
  have hvalue : Yields (rec (.expr 0)) (fun i s' => Holds w (b - 1) e q st
      (hs ++ holding .doc docs ++ [(type, .type)] ++ [(i, .expr)]) s') s₅ := by
    rcases h₅.1.moved_or_same h.tokens h.inside with hmoved | hsame
    · exact (hrec.expr le_rfl (by omega)).yields (hmoved.more (by omega))
    · refine (hrec.exprMoves le_rfl hn).yields (h₅.1.more hb) ?_
      rw [hsame 0]
      exact hk
  refine hvalue.bind fun value s₆ h₆ => ?_
  refine (h₆.expect (k := .semi) rfl _ _).bind fun _ s₇ h₇ => Yields.read rfl ?_
  refine h₇.1.allocPlain (holding .doc docs ++ [(type, .type), (value, .expr)]) (by simp) rfl
    (by simp [Held.indices, holding, Function.comp_def]) ?_ rfl
  exact .many (fun _ => cat_of_mem_holding) (.one rfl (.one rfl .nil))

/-! ### Traits and implementations -/

/-- Unless the next method begins at once, a token is dropped after an error. -/
theorem resyncMethod_spec {before : ℕ} (h : Holds w b before q st hs s) :
    Yields (resyncMethod before) (fun _ s' => Holds w b before q st hs s' ∧
      (before < s.errors.length → s.stream.peek 0 ≠ .r_brace → s.stream.peek 0 ≠ .kw_fn →
        s.stream.peek 0 ≠ .kw_unsafe_ → s.stream.peek 0 ≠ .eof →
        Holds w (b - 1) before q st hs s')) s := by
  have herr := h.errors
  unfold resyncMethod
  refine Yields.read rfl ?_
  split_ifs with hne
  · have h' : Holds w b (max before 1) q st hs s :=
      { h with errors := max_le h.errors (by omega) }
    by_cases hgo : s.stream.peek 0 ≠ .r_brace ∧ s.stream.peek 0 ≠ .kw_fn ∧
        s.stream.peek 0 ≠ .kw_unsafe_ ∧ s.stream.peek 0 ≠ .eof
    · refine (h'.skipUntil_moves (le_max_right _ _) ?_ hgo.2.2.2).mono fun _ s' hs' => ?_
      · simp [hgo.1, hgo.2.1, hgo.2.2.1]
      · exact ⟨hs'.weaken (Nat.sub_le b 1) (le_max_left _ _),
          fun _ _ _ _ _ => hs'.fewer (le_max_left _ _)⟩
    · refine (h'.skipUntil (le_max_right _ _) _).mono fun _ s' hs' => ?_
      exact ⟨hs'.fewer (le_max_left _ _), fun _ h₁ h₂ h₃ h₄ => (hgo ⟨h₁, h₂, h₃, h₄⟩).elim⟩
  · exact Yields.pure ⟨h, fun hlt => by omega⟩

theorem methodTurn_spec (hrec : Recurses w n rec) (hn : 4 * b + 4 ≤ n) {expectBody : Bool}
    {children acc : List NodeIndex} {v : ℕ}
    (h : Appended w b e q st hs (fnCat expectBody) children v acc s) :
    Yields (methodTurn n rec expectBody acc) (fun r s' => r.Leads
      (fun acc' => ∃ v' < v, Appended w b e q st hs (fnCat expectBody) children v' acc' s')
      (fun acc' => Collected w b e q st hs (fnCat expectBody) children acc' s')) s := by
  obtain ⟨hv, es, hacc, h⟩ := h
  unfold methodTurn
  refine Yields.read rfl (Yields.read rfl ?_)
  split_ifs with hstop
  · exact Yields.pure ⟨es, hacc, h.more hv⟩
  have hgo : s.stream.peek 0 ≠ .r_brace ∧ s.stream.peek 0 ≠ .eof := by
    simpa [TokenStream.check, TokenStream.atEof] using hstop
  have hpos := h.pos hgo.2
  have hbud := h.budget
  refine (h.exact.parseDocComments (by omega)).bind ?_
  rintro docs s₁ ⟨h₁, -⟩
  refine Yields.read rfl ?_
  have he := h₁.errors
  have hbud₁ := h₁.budget
  have hfn := parseFnDecl_spec hrec (by omega) h₁.exact.exactErrors 0 expectBody
  refine hfn.bind ?_
  rintro method s₂ ⟨h₂, hmoves, herror⟩
  -- the docs, the method, or else recovery consumes a token
  have hresync : Yields (resyncMethod s₁.errors.length) (fun _ s' => Holds w (v - 1) e q st
      (hs ++ holding (fnCat expectBody) es ++ [(method, fnCat expectBody)]) s') s₂ := by
    rcases h₁.moved_or_same h.tokens h.inside with hdocs | hsame
    · have hbud₁' := hdocs.budget
      exact (resyncMethod_spec h₂).mono fun _ _ h' => h'.1.weaken (by omega) he
    · by_cases hkw : s₁.stream.peek 0 = .kw_fn ∨ s₁.stream.peek 0 = .kw_unsafe_
      · exact (resyncMethod_spec (hmoves hkw)).mono fun _ _ h' => h'.1.weaken (by omega) he
      · rw [not_or] at hkw
        rcases h₂.moved_or_same h₁.tokens h₁.inside with hmethod | hsame₂
        · exact (resyncMethod_spec hmethod).mono fun _ _ h' => h'.1.weaken (by omega) he
        · refine (resyncMethod_spec h₂).mono fun _ _ h' => ?_
          rw [hsame₂ 0, hsame 0] at h'
          rw [hsame 0] at hkw
          have hlt := (herror (by rw [hsame 0]; exact hkw.1) (by rw [hsame 0]; exact hkw.2)).errors
          exact (h'.2 hlt hgo.1 hkw.1 hkw.2 hgo.2).weaken (by omega) he
  refine hresync.bind fun _ s₃ h₃ => ?_
  exact Yields.pure ⟨v - 1, by omega, Appended.push hacc (by omega) h₃⟩

theorem methods_spec (hrec : Recurses w n rec) (hn : 4 * b + 4 ≤ n)
    (h : Holds w b e q st hs s) (expectBody : Bool) (children : List NodeIndex) :
    Yields (iterate (methodTurn n rec expectBody) n children)
      (fun acc s' => Collected w b e q st hs (fnCat expectBody) children acc s') s :=
  Yields.iterate (I := Appended w b e q st hs (fnCat expectBody) children)
    (fun _ _ _ hI => methodTurn_spec hrec hn hI) (by omega) (Appended.start h children)

theorem parseTraitDecl_spec (hrec : Recurses w n rec) (hn : 4 * b + 4 ≤ n)
    (h : Holds w b e q st (hs ++ holding .doc docs) s) (hk : s.stream.peek 0 = .kw_trait)
    (flags : ℕ) :
    Yields (parseTraitDecl n rec docs flags)
      (fun i s' => Holds w (b - 1) e q st (hs ++ [(i, .decl)]) s') s := by
  unfold parseTraitDecl
  refine (h.expect_hit hk rfl _ _).bind fun _ s₁ h₁ => ?_
  refine (h₁.expectName (k := .identifier) rfl _).bind fun name s₂ h₂ => ?_
  refine (parseGenericParams_spec hrec (by omega) h₂.1).bind fun generics s₃ h₃ => ?_
  refine (h₃.expect (k := .l_brace) rfl _ _).bind fun _ s₄ h₄ => ?_
  refine (methods_spec hrec (by omega) h₄.1 false _).bind ?_
  rintro _ s₅ ⟨es, rfl, h₅⟩
  refine (h₅.expect (k := .r_brace) rfl _ _).bind fun _ s₆ h₆ => ?_
  refine h₆.1.allocPlain
    (holding .doc docs ++ (holding .genericParamList (pushed generics) ++ holding .fnSig es))
    (by simp [fnCat]) rfl (by simp) ?_ rfl
  exact .many (fun _ => cat_of_mem_holding) (.opt (by simpa using length_pushed generics)
    (fun _ => cat_of_mem_holding) (fits_holding es))

theorem parseImplTypes_spec (hrec : Recurses w n rec) (hn : 4 * b + 2 ≤ n)
    (h : Holds w b e q st hs s) :
    Yields (parseImplTypes rec) (fun ts s' => ∃ i j, ts = [i, j] ∧
      Holds w b e q st (hs ++ [(i, .traitRef), (j, .type)]) s') s := by
  unfold parseImplTypes
  refine ((hrec.type hn).yields h).bind fun first s₁ h₁ => ?_
  refine (h₁.consume (k := .kw_for) rfl).bind ?_
  rintro _ s₂ (⟨rfl, -, h₂⟩ | ⟨rfl, rfl, -⟩)
  · have h₂' : Holds w (b - 1) e q st (hs ++ [(first, .traitRef)]) s₂ := h₂.widen rfl
    refine ((hrec.type (by omega)).yields h₂').bind fun type s₃ h₃ => ?_
    exact Yields.pure ⟨first, type, rfl, by simpa using h₃.more (Nat.sub_le b 1)⟩
  · exact Yields.pure ⟨NullNode, first, rfl, by simpa using h₁.holdNull (c := .traitRef) rfl⟩

theorem parseImplDecl_spec (hrec : Recurses w n rec) (hn : 4 * b + 4 ≤ n)
    (h : Holds w b e q st (hs ++ holding .doc docs) s) (hk : s.stream.peek 0 = .kw_impl)
    (flags : ℕ) :
    Yields (parseImplDecl n rec docs flags)
      (fun i s' => Holds w (b - 1) e q st (hs ++ [(i, .decl)]) s') s := by
  unfold parseImplDecl
  refine (h.expect_hit hk rfl _ _).bind fun _ s₁ h₁ => ?_
  refine (parseGenericParams_spec hrec (by omega) h₁).bind fun generics s₂ h₂ => ?_
  refine (parseImplTypes_spec hrec (by omega) h₂).bind ?_
  rintro _ s₃ ⟨trait, type, rfl, h₃⟩
  refine (h₃.expect (k := .l_brace) rfl _ _).bind fun _ s₄ h₄ => ?_
  refine (methods_spec hrec (by omega) h₄.1 true _).bind ?_
  rintro _ s₅ ⟨es, rfl, h₅⟩
  refine (h₅.expect (k := .r_brace) rfl _ _).bind fun _ s₆ h₆ => ?_
  refine h₆.1.allocPlain (holding .doc docs ++ (holding .genericParamList (pushed generics) ++
    (trait, .traitRef) :: (type, .type) :: holding .fnDef es)) (by simp [fnCat]) rfl ?_ ?_ rfl
  · simp [Held.indices, holding, Function.comp_def]
  · exact .many (fun _ => cat_of_mem_holding) (.opt (by simpa using length_pushed generics)
      (fun _ => cat_of_mem_holding) (.one rfl (.one rfl (fits_holding es))))

/-! ### The top level -/

theorem consumePub_spec (h : Holds w b e q st hs s) :
    Yields consumePub (fun _ s' => Holds w b e q st hs s') s := by
  unfold consumePub
  refine (h.consume (k := .kw_pub) rfl).bind ?_
  rintro _ s₁ (⟨rfl, -, h₁⟩ | ⟨rfl, rfl, -⟩)
  · exact Yields.pure (h₁.more (Nat.sub_le b 1))
  · exact Yields.pure h

theorem parseUnsafeDecl_spec (hrec : Recurses w n rec) (hn : 4 * b + 4 ≤ n)
    (h : Holds w b e q st (hs ++ holding .doc docs) s) (hk : s.stream.peek 0 = .kw_unsafe_)
    (flags : ℕ) :
    Yields (parseUnsafeDecl n rec docs flags)
      (fun i s' => Holds w (b - 1) e q st (hs ++ [(i, .decl)]) s') s := by
  unfold parseUnsafeDecl
  refine Yields.read rfl ?_
  split_ifs
  · refine (h.advance hk rfl).bind fun _ s₁ h₁ => ?_
    exact (parseFnDecl_spec hrec (by omega) h₁ _ true).mono fun _ _ h' => h'.1.widen rfl
  · exact parseConstDecl_spec hrec (by omega) h (by rw [hk]; exact ⟨rfl, by decide⟩) flags

theorem rejectDocs_spec (h : Holds w b e q st hs s) (loc : Span) :
    Yields (rejectDocs docs loc) (fun _ s' => Holds w b e q st hs s' ∧ s'.stream = s.stream) s := by
  unfold rejectDocs
  split_ifs
  · exact (h.addError _ _).mono fun _ _ h' => ⟨h'.1.fewer (Nat.le_succ e), h'.2⟩
  · exact Yields.pure ⟨h, rfl⟩

theorem parseBadDecl_spec (h : Holds w b e q st (hs ++ holding .doc docs) s) :
    Yields (parseBadDecl docs) (fun i s' => Holds w b e q st (hs ++ [(i, .decl)]) s' ∧
      (s.stream.peek 0 ≠ .eof → Holds w (b - 1) e q st (hs ++ [(i, .decl)]) s')) s := by
  unfold parseBadDecl
  refine Yields.read rfl ((rejectDocs_spec h _).bind ?_)
  rintro _ s₁ ⟨h₁, hs₁⟩
  refine (h₁.addError _ _).bind ?_
  rintro _ s₂ ⟨h₂, hs₂⟩
  have hdrop := h₂.drop (by omega) (List.sublist_append_left hs (holding .doc docs))
  refine (hdrop.synchronize (by omega)).bind ?_
  rintro _ s₃ ⟨h₃, h₃'⟩
  rw [hs₂, hs₁] at h₃'
  by_cases heof : s.stream.peek 0 = .eof
  · refine (h₃.makeErrorNode (c := .decl) (by omega) _ rfl).mono fun _ _ h' => ?_
    exact ⟨h'.fewer (Nat.le_succ e), fun hne => (hne heof).elim⟩
  · refine ((h₃' heof).makeErrorNode (c := .decl) (by omega) _ rfl).mono fun _ _ h' => ?_
    exact ⟨h'.weaken (Nat.sub_le b 1) (Nat.le_succ e), fun _ => h'.fewer (Nat.le_succ e)⟩

theorem parseDecl_spec (hrec : Recurses w n rec) (hn : 4 * b + 4 ≤ n)
    (h : Holds w b e q st (hs ++ holding .doc docs) s) (flags : ℕ) :
    Yields (parseDecl n rec docs flags) (fun i s' => Holds w b e q st (hs ++ [(i, .decl)]) s' ∧
      (s.stream.peek 0 ≠ .eof → Holds w (b - 1) e q st (hs ++ [(i, .decl)]) s')) s := by
  have hboth : ∀ {m : ParserM NodeIndex},
      Yields m (fun i s' => Holds w (b - 1) e q st (hs ++ [(i, .decl)]) s') s →
      Yields m (fun i s' => Holds w b e q st (hs ++ [(i, .decl)]) s' ∧
        (s.stream.peek 0 ≠ .eof → Holds w (b - 1) e q st (hs ++ [(i, .decl)]) s')) s := by
    intro m hm
    exact hm.mono fun _ _ h' => ⟨h'.more (Nat.sub_le b 1), fun _ => h'⟩
  have hbody : ∀ {k : Token.Kind} {kind c m construct}, s.stream.peek 0 = k →
      symOf k = .neutral → isPlain kind = true →
      layoutOf kind = [.many .doc, .opt .genericParamList, .many c] →
      (∀ l, Cat.decl.admits kind l = true) → Parses w b c m →
      Yields (parseBodyDecl k kind construct n rec m docs flags)
        (fun i s' => Holds w (b - 1) e q st (hs ++ [(i, .decl)]) s') s := by
    intro k kind c m construct hk hsym hplain hlayout hadmits hm
    exact parseBodyDecl_spec hrec hn h hk hsym hplain hlayout hadmits hm construct flags
  have hfield := parseStructField_spec (b := b) hrec (by omega)
  have hvariant := parseEnumVariant_spec (b := b) hrec (by omega)
  unfold parseDecl
  refine Yields.read rfl ?_
  split
  case _ hk =>
    exact hboth ((parseFnDecl_spec hrec hn h flags true).mono fun _ _ h' =>
      (h'.2.1 (Or.inl hk)).widen rfl)
  case _ hk => exact hboth (parseUnsafeDecl_spec hrec hn h hk flags)
  case _ hk =>
    exact hboth (parseConstDecl_spec hrec (by omega) h (by rw [hk]; exact ⟨rfl, by decide⟩) flags)
  case _ hk => exact hboth (parseModDecl_spec hrec hn h hk flags)
  case _ hk => exact hboth (hbody hk rfl rfl rfl (fun _ => rfl) hfield)
  case _ hk => exact hboth (hbody hk rfl rfl rfl (fun _ => rfl) hvariant)
  case _ hk => exact hboth (hbody hk rfl rfl rfl (fun _ => rfl) hfield)
  case _ hk => exact hboth (parseUseDecl_spec (by omega) h hk flags)
  case _ hk => exact hboth (parseTraitDecl_spec hrec hn h hk flags)
  case _ hk => exact hboth (parseImplDecl_spec hrec hn h hk flags)
  case _ => exact parseBadDecl_spec h

theorem parseTopLevelDecl_spec (hrec : Recurses w n rec) (hn : 4 * b + 4 ≤ n)
    (h : Holds w b e q st hs s) (hne : s.stream.peek 0 ≠ .eof) :
    Yields (parseTopLevelDecl n rec)
      (fun i s' => Holds w (b - 1) e q st (hs ++ [(i, .decl)]) s') s := by
  have hbud := h.budget
  unfold parseTopLevelDecl
  refine (h.exact.parseDocComments (by omega)).bind ?_
  rintro docs s₁ ⟨h₁, -⟩
  refine (consumePub_spec h₁).bind fun flags s₂ h₂ => ?_
  rcases h₂.moved_or_same h.tokens h.inside with hmoved | hsame
  · exact (parseDecl_spec hrec (by omega) hmoved flags).mono fun _ _ h' => h'.1.more (by omega)
  · refine (parseDecl_spec hrec (by omega) h₂ flags).mono fun _ _ h' => ?_
    rw [hsame 0] at h'
    exact (h'.2 hne).more (by omega)

end Eter.Parser
