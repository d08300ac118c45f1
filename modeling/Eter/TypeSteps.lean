import Eter.ParserLoops
import Eter.ParseTypes

/-!
# Types and generic parameters keep the invariant
-/

namespace Eter.Parser
open Stateful Brackets Layout

variable {w : Watch} {b e q n : ℕ} {st : List Bracket} {hs : Held} {s : PState} {rec : Rec}

theorem parseTupleType_spec (hrec : Recurses w n rec) (hn : 4 * b + 1 ≤ n)
    (h : Holds w b e q st hs s) (hk : s.stream.peek 0 = .l_paren) :
    Yields (parseTupleType n rec) (fun i s' => Holds w b e q st (hs ++ [(i, .type)]) s') s := by
  have hpos := h.pos (by rw [hk]; decide)
  unfold parseTupleType
  refine (h.advance hk rfl).bind fun _ s₁ h₁ => ?_
  refine ((hrec.type (by omega)).commaSeparated (by omega) h₁ []).bind ?_
  rintro types s₂ ⟨_, rfl, h₂⟩
  refine (h₂.expect (k := .r_paren) rfl _ _).bind fun _ s₃ h₃ => ?_
  exact (h₃.1.more (Nat.sub_le b 1)).allocPlain (holding .type types) rfl rfl
    (indices_holding types).symm (fits_holding types) rfl

theorem parseNamedType_spec (hn : b < n) (h : Holds w b e q st hs s) :
    Yields (parseNamedType n) (fun i s' => Holds w b e q st (hs ++ [(i, .type)]) s') s := by
  unfold parseNamedType
  refine Yields.read rfl (Yields.read rfl ?_)
  split_ifs with hc
  · refine Yields.read rfl ((h.addError _ _).bind fun _ s₁ h₁ => Yields.read rfl ?_)
    exact (h₁.1.makeErrorNode (by omega) _ rfl).mono fun _ _ h' => h'.fewer (Nat.le_succ e)
  · have hk : s.stream.peek 0 = .identifier ∨ s.stream.peek 0 = .kw_Self := by
      simpa [TokenStream.check, or_iff_not_imp_left] using hc
    have hm : step (symOf (s.stream.peek 0)) st = some st := by
      rcases hk with hk | hk <;> rw [hk] <;> rfl
    have hpos := h.pos (by rcases hk with hk | hk <;> rw [hk] <;> decide)
    refine (h.advance rfl hm).bind fun _ s₁ h₁ => ?_
    refine (h₁.parsePathSegments (by omega) _).bind fun _ s₂ h₂ => ?_
    refine (h₂.internText _).bind fun _ s₃ h₃ => ?_
    exact (h₃.1.more (Nat.sub_le b 1)).allocLeaf rfl .nil rfl

theorem parseArrayType_spec (hrec : Recurses w n rec) (hn : 4 * b + 1 ≤ n)
    (h : Holds w b e q st hs s) (hk : s.stream.peek 0 = .l_square) :
    Yields (parseArrayType rec) (fun i s' => Holds w b e q st (hs ++ [(i, .type)]) s') s := by
  have hpos := h.pos (by rw [hk]; decide)
  unfold parseArrayType parseConstExpr
  refine (h.advance hk rfl).bind fun _ s₁ h₁ => ?_
  refine ((hrec.type (by omega)).yields h₁).bind fun element s₂ h₂ => ?_
  refine (h₂.expect (k := .semi) rfl _ _).bind fun _ s₃ h₃ => ?_
  refine ((hrec.expr le_rfl (by omega)).yields h₃.1).bind fun size s₄ h₄ => ?_
  refine (h₄.expect (k := .r_square) rfl _ _).bind fun _ s₅ h₅ => ?_
  exact (h₅.1.more (Nat.sub_le b 1)).allocPlain [(element, .type), (size, .expr)] (by simp) rfl rfl
    (.one rfl (.one rfl .nil)) rfl

theorem requireDim_spec (h : Holds w b e q st hs s) (empty : Bool) :
    Yields (requireDim empty) (fun _ s' => Holds w b e q st hs s' ∧
      (empty = true → Holds w b (e + 1) q st hs s')) s := by
  unfold requireDim
  split_ifs with hc
  · refine Yields.read rfl ?_
    exact (h.addError _ _).mono fun _ _ h' => ⟨h'.1.fewer (Nat.le_succ e), fun _ => h'.1⟩
  · exact Yields.pure ⟨h, fun hempty => (hc hempty).elim⟩

theorem parseTensorType_spec (hrec : Recurses w n rec) (hn : 4 * b + 1 ≤ n)
    (h : Holds w b e q st hs s) (hk : s.stream.peek 0 = .kw_tensor) :
    Yields (parseTensorType n rec) (fun i s' => Holds w b e q st (hs ++ [(i, .type)]) s') s := by
  have hpos := h.pos (by rw [hk]; decide)
  unfold parseTensorType parseConstExpr
  refine (h.advance hk rfl).bind fun _ s₁ h₁ => ?_
  refine (h₁.expect (k := .l_square) rfl _ _).bind fun _ s₂ h₂ => ?_
  refine ((hrec.type (by omega)).yields h₂.1).bind fun element s₃ h₃ => ?_
  refine (h₃.expect (k := .semi) rfl _ _).bind fun _ s₄ h₄ => ?_
  refine ((hrec.expr le_rfl (by omega)).commaSeparated (by omega) h₄.1 [element]).bind ?_
  rintro _ s₅ ⟨dims, rfl, h₅⟩
  refine (requireDim_spec h₅ _).bind fun _ s₆ h₆ => ?_
  -- either there are dimensions or an error says that there are none
  have hfit : Fits (fun c p => p.2 = c) (layoutOf .TensorType)
      ((element, .type) :: holding .expr dims) := .one rfl (fits_holding dims)
  have hclean : ∃ e', e ≤ e' ∧ Holds w (b - 1) e' q (.square :: st)
      (hs ++ [(element, .type)] ++ holding .expr dims) s₆ ∧
      (1 ≤ e' ∨ ([element] ++ dims).length ≠ 1) := by
    by_cases hlen : ([element] ++ dims).length = 1
    · exact ⟨e + 1, Nat.le_succ e, h₆.2 (by simpa using hlen), Or.inl (by omega)⟩
    · exact ⟨e, le_rfl, h₆.1, Or.inr hlen⟩
  obtain ⟨e', he, h₆, hdims⟩ := hclean
  refine (h₆.expect (k := .r_square) rfl _ _).bind fun _ s₇ h₇ => ?_
  refine ((h₇.1.more (Nat.sub_le b 1)).alloc ((element, .type) :: holding .expr dims) (by simp)
    (by simp [Held.indices, holding, Function.comp_def]) hfit (by rintro ⟨⟩) ?_ rfl).mono
    fun _ _ h' => h'.fewer he
  exact hdims.imp id fun hne => ⟨by decide, fun _ => hne, by rintro ⟨⟩⟩

theorem parseType_spec (hrec : Recurses w n rec) (hn : 4 * b + 1 ≤ n)
    (h : Holds w b e q st hs s) :
    Yields (parseType n rec) (fun i s' => Holds w b e q st (hs ++ [(i, .type)]) s') s := by
  unfold parseType
  refine Yields.read rfl ?_
  split_ifs with h₁
  · exact parseTupleType_spec hrec hn h (by simpa [TokenStream.check] using h₁)
  · refine Yields.read rfl ?_
    split_ifs with h₂
    · exact parseArrayType_spec hrec hn h (by simpa [TokenStream.check] using h₂)
    · refine Yields.read rfl ?_
      split_ifs with h₃
      · exact parseTensorType_spec hrec hn h (by simpa [TokenStream.check] using h₃)
      · exact parseNamedType_spec (by omega) h

/-! ### Generics -/

theorem parseBound_spec (hrec : Recurses w n rec) (hn : 4 * b + 2 ≤ n)
    (h : Holds w b e q st hs s) :
    Yields (parseBound rec) (fun i s' => Holds w b e q st (hs ++ [(i, .bound)]) s') s := by
  unfold parseBound
  refine (h.consume (k := .colon) rfl).bind ?_
  rintro _ s₁ (⟨rfl, -, h₁⟩ | ⟨rfl, rfl, -⟩)
  · refine ((hrec.type (by omega)).yields h₁).mono fun i s' h' => ?_
    exact (h'.more (Nat.sub_le b 1)).widen rfl
  · rw [← List.append_nil hs] at h
    exact Yields.pure (by simpa using h.holdNull (c := .bound) rfl)

theorem parseGenericParam_spec (hrec : Recurses w n rec) (hn : 4 * b + 2 ≤ n) :
    Parses w b .genericParam (parseGenericParam rec) := by
  intro b' hb e q st hs s h
  unfold parseGenericParam
  refine Yields.read rfl (Yields.read rfl ?_)
  split_ifs with hc
  · refine Yields.read rfl ((h.addError _ _).bind fun _ s₁ h₁ => Yields.read rfl ?_)
    exact (h₁.1.makeErrorNode (by omega) _ rfl).mono fun _ _ h' => h'.fewer (Nat.le_succ e)
  · have hk : s.stream.peek 0 = .identifier := by simpa [TokenStream.check] using hc
    have hpos := h.pos (by rw [hk]; decide)
    refine (h.advance hk rfl).bind fun _ s₁ h₁ => ?_
    refine (h₁.internText _).bind fun _ s₂ h₂ => ?_
    refine (parseBound_spec hrec (by omega) h₂.1).bind fun bound s₃ h₃ => Yields.read rfl ?_
    exact (h₃.more (Nat.sub_le b' 1)).allocPlain [(bound, .bound)] rfl rfl rfl (.one rfl .nil) rfl

theorem parseGenericList_spec (hrec : Recurses w n rec) (hn : 4 * b + 2 ≤ n)
    (h : Holds w b e q st hs s) :
    Yields (parseGenericList n rec)
      (fun params s' => Holds w b e q st (hs ++ holding .genericParam params) s') s := by
  have hparam := parseGenericParam_spec hrec hn
  unfold parseGenericList
  refine Yields.read rfl ?_
  split_ifs
  · exact Yields.pure (by simpa using h)
  · refine (hparam.yields h).bind fun first s₁ h₁ => ?_
    refine (hparam.moreElements (by omega) h₁ [first] _).mono ?_
    rintro _ s₂ ⟨params, rfl, h₂⟩
    simpa [holding] using h₂

theorem parseGenericParams_spec (hrec : Recurses w n rec) (hn : 4 * b + 2 ≤ n)
    (h : Holds w b e q st hs s) :
    Yields (parseGenericParams n rec)
      (fun i s' => Holds w b e q st (hs ++ holding .genericParamList (pushed i)) s') s := by
  unfold parseGenericParams
  refine Yields.read rfl ?_
  split_ifs with hc
  · exact Yields.pure (by simpa [pushed] using h)
  · have hk : s.stream.peek 0 = .less := by simpa [TokenStream.check] using hc
    refine (h.advance hk rfl).bind fun _ s₁ h₁ => ?_
    refine (parseGenericList_spec hrec (by omega) h₁).bind fun params s₂ h₂ => ?_
    refine (h₂.expect (k := .greater) rfl _ _).bind fun _ s₃ h₃ => ?_
    refine Yields.mono (R := fun i s' => Holds w b e q st (hs ++ [(i, .genericParamList)]) s') ?_
      fun _ _ h' => h'.holding_pushed rfl
    exact (h₃.1.more (Nat.sub_le b 1)).allocPlain (holding .genericParam params) rfl rfl
      (indices_holding params).symm (fits_holding params) rfl

end Eter.Parser
