import Eter.SpanLoops

/-!
# Types and patterns in the text
-/

namespace Eter.Parser
open Stateful Diag

variable {g : Ground} {c a b x n : ℕ} {s s' : PState} {rec : Rec} {i : NodeIndex}

/-- The tokens a type starts with. -/
def startsType (k : Token.Kind) : Bool :=
  k = .l_paren || k = .l_square || k = .kw_tensor || k = .identifier || k = .kw_Self

/-- A type built from token `a` on, of which a token was consumed exactly if a type starts there. -/
def LaidType (g : Ground) (a : ℕ) (i : NodeIndex) (s : PState) : Prop :=
  ∃ b, a ≤ b ∧ (startsType (g.kind a) = true → a < b) ∧ (startsType (g.kind a) = false → b = a) ∧
    Good g b s ∧ Placed g s a b i

theorem LaidType.laid (h : LaidType g a i s) : Laid g a i s := by
  obtain ⟨b, hab, -, -, h⟩ := h
  exact ⟨b, hab, False.elim, h⟩

theorem LaidIf.type (h : LaidMoving g a i s) (hk : startsType (g.kind a) = true) :
    LaidType g a i s := by
  obtain ⟨b, hab, hlt, h⟩ := h
  refine ⟨b, hab, fun _ => hlt trivial, fun hk' => ?_, h⟩
  rw [hk] at hk'
  cases hk'

/-- What the productions that recursion enters do. -/
structure Lay (g : Ground) (rec : Rec) : Prop where
  expr : ∀ {m c s}, Good g c s →
    Lays (rec (.expr m)) (LaidIf (isSync (g.kind c) = false ∧ g.kind c ≠ .eof) g c) s
  type : ∀ {c s}, Good g c s → Lays (rec .type) (LaidType g c) s
  pat : ∀ {c s}, Good g c s → Lays (rec .pat) (Laid g c) s
  stmt : ∀ {c s}, Good g c s → Lays (rec .stmt) (Laid g c) s
  block : ∀ {c s}, Good g c s → Lays (rec .block) (LaidIf (g.kind c = .l_brace) g c) s
  ifExpr : ∀ {c s}, Good g c s → g.kind c = .kw_if → Lays (rec .ifExpr) (LaidMoving g c) s
  topLevelDecl : ∀ {c s}, Good g c s → Lays (rec .topLevelDecl) (Adds g c) s

theorem Lay.exprs (hrec : Lay g rec) {m : ℤ} : Elements g c (rec (.expr m)) :=
  .of fun _ _ h => (hrec.expr h).mono fun _ _ _ hi => hi.laid

theorem Lay.types (hrec : Lay g rec) : Elements g c (rec .type) :=
  .of fun _ _ h => (hrec.type h).mono fun _ _ _ hi => hi.laid

theorem parseTupleType_lays (hrec : Lay g rec) (h : Good g c s) (hk : g.kind c = .l_paren) :
    Lays (parseTupleType n rec) (LaidMoving g c) s := by
  unfold parseTupleType
  refine h.bindAdvance (by simp [hk]) fun s₁ _ h₁ => ?_
  refine (parseCommaSeparated_lays hrec.types (RowTo.start h₁)).bind ?_
  intro types s₂ _ h₂
  exact h₂.bracket le_rfl (Nat.lt_succ_self c) DocKids.none (by decide) (by decide)

theorem parseNamedType_lays (h : Good g c s) (hk : g.kind c ≠ .l_paren ∧ g.kind c ≠ .l_square ∧
    g.kind c ≠ .kw_tensor) : Lays (parseNamedType n) (LaidType g c) s := by
  unfold parseNamedType
  refine h.bindCheck _ (h.bindCheck _ ?_)
  split_ifs with hstart
  · have hno : startsType (g.kind c) = false := by simp_all [startsType]
    refine h.bindPeekToken (Lays.bind (h.addError (g.proper_span c) _) ?_)
    rintro _ s₁ - ⟨h₁, hdirty⟩
    refine h₁.bindPeekToken ((h₁.errorNode hdirty (le_refl c) (le_refl c)).mono ?_)
    refine fun _ _ _ hi => ⟨c, le_rfl, fun hyes => ?_, fun _ => rfl, hi⟩
    rw [hno] at hyes
    cases hyes
  · have hyes : startsType (g.kind c) = true := by
      by_cases hid : g.kind c = .identifier <;> simp_all [startsType]
    refine h.bindAdvance (by rintro heof; simp [heof, startsType] at hyes) fun s₁ _ h₁ => ?_
    refine (parsePathSegments_lays h₁).bind ?_
    rintro path s₂ - ⟨b, hcb, hpath, h₂⟩
    rw [hpath]
    refine (h₂.internText _).bind fun name s₃ _ h₃ => ?_
    exact (h₃.allocPath hcb (by decide) name).mono fun _ _ _ hi => hi.type hyes

theorem parseArrayType_lays (hrec : Lay g rec) (h : Good g c s) (hk : g.kind c = .l_square) :
    Lays (parseArrayType rec) (LaidMoving g c) s := by
  unfold parseArrayType parseConstExpr
  refine h.bindAdvance (by simp [hk]) fun s₁ _ h₁ => ?_
  refine ((RowTo.start h₁).element hrec.types).bind fun element s₂ _ h₂ => ?_
  refine (h₂.expect (by decide) _ _).bind fun _ s₃ _ h₃ => ?_
  refine (h₃.element hrec.exprs).bind fun size s₄ _ h₄ => ?_
  exact h₄.bracket le_rfl (Nat.lt_succ_self c) DocKids.none (by decide) (by decide)

theorem requireDim_lays (h : Good g c s) (empty : Bool) :
    Lays (requireDim empty) (fun _ s' => Reaches g c s') s := by
  unfold requireDim
  split_ifs
  · exact h.bindPeekToken ((h.addError (g.proper_span c) _).mono
      fun _ _ _ h' => ⟨c, le_rfl, h'.1⟩)
  · exact Lays.pure ⟨c, le_rfl, h⟩

theorem parseTensorType_lays (hrec : Lay g rec) (h : Good g c s) (hk : g.kind c = .kw_tensor) :
    Lays (parseTensorType n rec) (LaidMoving g c) s := by
  unfold parseTensorType parseConstExpr
  refine h.bindAdvance (by simp [hk]) fun s₁ _ h₁ => ?_
  refine ((RowTo.start h₁).expect (by decide) _ _).bind fun _ s₂ _ h₂ => ?_
  refine (h₂.element hrec.types).bind fun element s₃ _ h₃ => ?_
  refine (h₃.expect (by decide) _ _).bind fun _ s₄ _ h₄ => ?_
  refine (parseCommaSeparated_lays hrec.exprs h₄).bind fun children s₅ _ h₅ => ?_
  refine (h₅.move fun _ _ h => requireDim_lays h _).bind fun _ s₆ _ h₆ => ?_
  exact h₆.bracket le_rfl (Nat.lt_succ_self c) DocKids.none (by decide) (by decide)

theorem parseType_lays (hrec : Lay g rec) (h : Good g c s) :
    Lays (parseType n rec) (LaidType g c) s := by
  have hstart : ∀ {i s'}, LaidMoving g c i s' → ∀ {k}, g.kind c = k → startsType k = true →
      LaidType g c i s' := fun hi _ hk hs => hi.type (by rw [hk]; exact hs)
  unfold parseType
  refine h.bindCheck _ ?_
  split_ifs with hparen
  · have hk : g.kind c = .l_paren := by simpa using hparen
    exact (parseTupleType_lays hrec h hk).mono fun _ _ _ hi => hstart hi hk rfl
  · refine h.bindCheck _ ?_
    split_ifs with hsquare
    · have hk : g.kind c = .l_square := by simpa using hsquare
      exact (parseArrayType_lays hrec h hk).mono fun _ _ _ hi => hstart hi hk rfl
    · refine h.bindCheck _ ?_
      split_ifs with htensor
      · have hk : g.kind c = .kw_tensor := by simpa using htensor
        exact (parseTensorType_lays hrec h hk).mono fun _ _ _ hi => hstart hi hk rfl
      · exact parseNamedType_lays h (by simp_all)

/-! ### Generics -/

/-- A child that may be missing. -/
theorem Kids.missing {y : ℕ} (h : x ≤ y) : Kids s x y [NullNode] := fun _ => h

theorem parseBound_lays (hrec : Lay g rec) (h : Good g c s) (hx : x ≤ g.before c) :
    Lays (parseBound rec) (fun i s' => RowTo g x c [] [i] s') s := by
  unfold parseBound
  refine (h.consume (by decide)).bind ?_
  rintro _ s₁ - (⟨rfl, -, h₁⟩ | ⟨rfl, -, rfl⟩)
  · refine ((RowTo.none [] h₁ (hx.trans (g.before_mono (Nat.le_succ c)))).element hrec.types).mono ?_
    rintro i s₂ - ⟨b, es, hb, hes, h₂⟩
    exact ⟨b, es, by omega, hes, h₂⟩
  · exact Lays.pure ⟨c, [NullNode], le_rfl, rfl, h, Kids.missing hx⟩

theorem parseGenericParam_lays (hrec : Lay g rec) : Elements g a (parseGenericParam rec) := by
  refine .of fun c s h => ?_
  unfold parseGenericParam
  refine h.bindPeekToken (h.bindCheck _ ?_)
  split_ifs with hid
  · refine h.bindPeekToken (Lays.bind (h.addError (g.proper_span c) _) ?_)
    rintro _ s₁ - ⟨h₁, hdirty⟩
    exact h₁.bindPeekToken ((h₁.errorHere hdirty le_rfl).mono fun _ _ _ hi => hi.laid)
  · refine h.bindAdvance (by simp_all) fun s₁ _ h₁ => ?_
    refine (h₁.internText _).bind fun name s₂ _ h₂ => ?_
    refine (parseBound_lays hrec h₂ (g.start_le_before c)).bind ?_
    rintro bound s₃ - ⟨b, es, hb, hes, h₃, hkids⟩
    obtain ⟨b, rfl⟩ : ∃ b', b = b' + 1 := ⟨b - 1, by omega⟩
    refine h₃.bindPrevious ?_
    exact (h₃.allocPrevious le_rfl (by omega) hes (by decide) DocKids.none hkids).mono
      fun _ _ _ hi => hi.laid

theorem parseGenericList_lays (hrec : Lay g rec) (h : RowTo g x c [] [] s) :
    Lays (parseGenericList n rec) (fun acc s' => RowTo g x c [] acc s') s := by
  unfold parseGenericList
  refine Lays.read rfl ?_
  split_ifs
  · exact Lays.pure h
  · refine (h.element (parseGenericParam_lays hrec)).bind fun first s₁ _ h₁ => ?_
    exact parseMore_lays (parseGenericParam_lays hrec) h₁

/-- The list of generic parameters, if there is one, behind the row. -/
theorem parseGenericParams_lays (hrec : Lay g rec) {front acc : List NodeIndex}
    (h : RowTo g x c front acc s) :
    Lays (parseGenericParams n rec) (fun i s' => RowTo g x c front (acc ++ pushed i) s') s := by
  unfold parseGenericParams
  obtain ⟨b, es, hcb, hacc, h, hkids⟩ := h
  refine h.bindCheck _ ?_
  split_ifs with hless
  · refine Lays.pure ⟨b, es, hcb, ?_, h, hkids⟩
    rw [hacc]
    exact List.append_nil _
  · refine h.bindAdvance (by simp_all) fun s₁ hle₁ h₁ => ?_
    refine (parseGenericList_lays hrec (RowTo.start h₁)).bind ?_
    intro params s₂ hle₂ h₂
    refine (h₂.bracket le_rfl (Nat.lt_succ_self b) DocKids.none (by decide) (by decide)).mono ?_
    rintro i s₃ hle₃ ⟨b₃, hb₃, -, h₃, hi⟩
    have hpushed : pushed i = [i] := by
      obtain ⟨z, hz, -⟩ := hi
      unfold pushed
      rw [if_neg]
      rintro rfl
      cases hz.1
    refine ⟨b₃, es ++ [i], hcb.trans hb₃, ?_, h₃, ?_⟩
    · rw [hpushed, hacc, List.append_assoc]
    · exact (hkids.later (hle₁.trans (hle₂.trans hle₃))).push hi.kids le_rfl

/-! ### Patterns -/

theorem parseFieldPat_lays (hrec : Lay g rec) : Elements g a (parseFieldPat rec) := by
  refine .of fun c s h => ?_
  unfold parseFieldPat
  refine h.bindCheck _ ?_
  split_ifs with hid
  · exact h.bindPeekToken (h.rejectHere _)
  · refine h.bindAdvance (by simp_all) fun s₁ _ h₁ => ?_
    refine (h₁.internText _).bind fun name s₂ _ h₂ => ?_
    refine (h₂.consume (by decide)).bind ?_
    rintro _ s₃ - (⟨rfl, -, h₃⟩ | ⟨rfl, -, rfl⟩)
    · refine (hrec.pat h₃).bind ?_
      rintro pat s₄ - ⟨b, hb, -, h₄, hpat⟩
      refine hpat.spanOf fun z hz => ?_
      exact (h₄.allocTo le_rfl (by omega) le_rfl hb hz le_rfl
        (Kids.none (g.start_le_before_of_lt (by omega))) (by decide)).mono fun _ _ _ hi => hi.laid
    · exact (h₂.allocPath le_rfl (by decide) _).mono fun _ _ _ hi => hi.laid

/-- Patterns in brackets, behind a name that starts at token `a` or without one. -/
theorem parseStructPat_lays (hrec : Lay g rec) (h : Good g c s) (hac : a ≤ c)
    (hk : g.kind c = .l_brace) (name : InternedStr) {z : Span} (hz : z.start = g.start a) :
    Lays (parseStructPat n rec name z) (LaidMoving g a) s := by
  unfold parseStructPat
  refine h.bindAdvance (by simp [hk]) fun s₁ _ h₁ => ?_
  rw [hz]
  refine (parseCommaSeparated_lays (parseFieldPat_lays hrec)
    (RowTo.none [] h₁ (g.start_le_before_of_lt (Nat.lt_succ_of_le hac)))).bind ?_
  intro fields s₂ _ h₂
  exact h₂.bracket le_rfl (Nat.lt_succ_of_le hac) DocKids.none (by decide) (by decide)

theorem Lay.pats (hrec : Lay g rec) : Elements g c (rec .pat) :=
  .of fun _ _ h => hrec.pat h

theorem parseTuplePat_lays (hrec : Lay g rec) (h : Good g c s) (hac : a ≤ c)
    (hk : g.kind c = .l_paren) (name : InternedStr) {z : Span} (hz : z.start = g.start a) :
    Lays (parseTuplePat n rec name z) (LaidMoving g a) s := by
  unfold parseTuplePat
  refine h.bindAdvance (by simp [hk]) fun s₁ _ h₁ => ?_
  rw [hz]
  refine (parseCommaSeparated_lays hrec.pats
    (RowTo.none [] h₁ (g.start_le_before_of_lt (Nat.lt_succ_of_le hac)))).bind ?_
  intro pats s₂ _ h₂
  exact h₂.bracket le_rfl (Nat.lt_succ_of_le hac) DocKids.none (by decide) (by decide)

theorem parseNamePat_lays (hrec : Lay g rec) (h : Good g c s) (hk : g.kind c = .identifier) :
    Lays (parseNamePat n rec (g.side.tokenAt c)) (LaidMoving g c) s := by
  have hne : g.kind c ≠ .eof := by simp [hk]
  unfold parseNamePat
  refine Lays.read rfl ?_
  split_ifs
  · exact h.bindAdvance hne fun s₁ _ h₁ => h₁.allocPath le_rfl (by decide) 0
  · refine h.bindAdvance hne fun s₁ _ h₁ => ?_
    refine (parsePathSegments_lays h₁).bind ?_
    rintro path s₂ - ⟨b, hcb, hpath, h₂⟩
    rw [hpath]
    refine (h₂.internText _).bind fun name s₃ _ h₃ => h₃.bindCheck _ ?_
    split_ifs with hparen
    · exact parseTuplePat_lays hrec h₃ (by omega) (by simpa using hparen) name rfl
    · refine h₃.bindCheck _ ?_
      split_ifs with hbrace
      · exact parseStructPat_lays hrec h₃ (by omega) (by simpa using hbrace) name rfl
      · exact h₃.allocPath hcb (by decide) _

theorem parseBadPat_lays (h : Good g c s) :
    Lays (parseBadPat (g.side.tokenAt c)) (Laid g c) s := by
  unfold parseBadPat
  refine Lays.bind (h.addError (g.proper_span c) _) ?_
  rintro _ s₁ - ⟨h₁, hdirty⟩
  refine h₁.skip.bind ?_
  rintro _ s₂ hle ⟨b, hcb, -, h₂⟩
  exact (h₂.errorNode (fun hs => hdirty (hle.clean hs)) (le_refl c) hcb).mono
    fun _ _ _ hi => ⟨b, hcb, False.elim, hi⟩

theorem literal_ne_eof {k : Token.Kind} (h : isLiteral k = true) : k ≠ .eof := by
  rintro rfl
  cases h

theorem parsePat_lays (hrec : Lay g rec) (h : Good g c s) :
    Lays (parsePat n rec) (Laid g c) s := by
  unfold parsePat
  refine h.bindPeekToken ?_
  split_ifs with hid hparen hlit
  · exact (parseNamePat_lays hrec h hid).mono fun _ _ _ hi => hi.laid
  · exact (parseTuplePat_lays hrec h le_rfl hparen _ rfl).mono fun _ _ _ hi => hi.laid
  · unfold parseLiteralPat
    refine h.bindAdvance (literal_ne_eof hlit) fun s₁ _ h₁ => ?_
    refine (h₁.internText _).bind fun name s₂ _ h₂ => ?_
    exact (h₂.allocPath le_rfl (by decide) name).mono fun _ _ _ hi => hi.laid
  · exact parseBadPat_lays h

end Eter.Parser
