import Eter.SpanTypes

/-!
# Expressions in the text
-/

namespace Eter.Parser
open Stateful Diag

variable {g : Ground} {c a b x n : ℕ} {s s' : PState} {rec : Rec} {i lhs : NodeIndex} {p : Prop}
  {front acc : List NodeIndex}

theorem LaidIf.lit (h : LaidIf p g a i s) (allowed : Bool) :
    LaidIf p g a i { s with structLitAllowed := allowed } := by
  obtain ⟨b, hab, hp, hgood, hplaced⟩ := h
  exact ⟨b, hab, hp, { hgood with }, hplaced⟩

theorem RowTo.lit (h : RowTo g x c front acc s) (allowed : Bool) :
    RowTo g x c front acc { s with structLitAllowed := allowed } := by
  obtain ⟨b, es, hcb, hacc, hgood, hkids⟩ := h
  exact ⟨b, es, hcb, hacc, { hgood with }, hkids⟩

theorem parseLitExpr_lays (h : Good g (c + 1) s) :
    Lays (parseLitExpr (g.side.tokenAt c)) (LaidMoving g c) s := by
  unfold parseLitExpr
  exact (h.internText _).bind fun name s₁ _ h₁ => h₁.allocPath le_rfl (by decide) _

/-! ### Struct literals and names -/

theorem parseFieldInit_lays (hrec : Lay g rec) : Elements g a (parseFieldInit rec) := by
  refine .of fun c s h => ?_
  unfold parseFieldInit
  refine h.bindCheck _ ?_
  split_ifs with hid
  · exact h.bindPeekToken (h.rejectHere _)
  · refine h.bindAdvance (by simp_all) fun s₁ _ h₁ => ?_
    refine (h₁.internText _).bind fun name s₂ _ h₂ => ?_
    refine (h₂.consume (by decide)).bind ?_
    rintro _ s₃ - (⟨rfl, -, h₃⟩ | ⟨rfl, -, rfl⟩)
    · refine (hrec.expr h₃).bind ?_
      rintro init s₄ - ⟨b, hb, -, h₄, hinit⟩
      refine hinit.spanOf fun z hz => ?_
      exact (h₄.allocTo le_rfl (by omega) le_rfl hb hz le_rfl
        (Kids.none (g.start_le_before_of_lt (by omega))) (by decide)).mono fun _ _ _ hi => hi.laid
    · refine (h₂.allocToken (by decide) name).bind ?_
      rintro ident s₄ - ⟨h₄, hident⟩
      exact (h₄.allocPrevious le_rfl le_rfl rfl (by decide) DocKids.none hident.kids).mono
        fun _ _ _ hi => hi.laid

theorem parseStructLitExpr_lays (hrec : Lay g rec) (h : Good g c s) (hac : a ≤ c)
    (hk : g.kind c = .l_brace) (name : InternedStr) {z : Span} (hz : z.start = g.start a) :
    Lays (parseStructLitExpr n rec name z) (LaidMoving g a) s := by
  unfold parseStructLitExpr
  refine h.bindAdvance (by simp [hk]) fun s₁ _ h₁ => ?_
  rw [hz]
  refine Lays.withStructLit h₁ (fun s₂ _ h₂ => ?_) fun _ _ _ hi => hi.lit _
  refine (parseCommaSeparated_lays (parseFieldInit_lays hrec)
    (RowTo.none [] h₂ (g.start_le_before_of_lt (Nat.lt_succ_of_le hac)))).bind ?_
  intro fields s₃ _ h₃
  exact h₃.bracket le_rfl (Nat.lt_succ_of_le hac) DocKids.none (by decide) (by decide)

theorem parseNameExpr_lays (hrec : Lay g rec) (h : Good g c s) (hk : g.kind c = .identifier) :
    Lays (parseNameExpr n rec (g.side.tokenAt c)) (LaidMoving g c) s := by
  unfold parseNameExpr
  refine h.bindAdvance (by simp [hk]) fun s₁ _ h₁ => ?_
  refine (parsePathSegments_lays h₁).bind ?_
  rintro path s₂ - ⟨b, hcb, hpath, h₂⟩
  rw [hpath]
  refine (h₂.internText _).bind fun name s₃ _ h₃ => Lays.read rfl (h₃.bindCheck _ ?_)
  split_ifs with hbrace
  · simp only [Bool.and_eq_true, decide_eq_true_eq] at hbrace
    exact parseStructLitExpr_lays hrec h₃ (by omega) hbrace.2 name rfl
  · exact h₃.allocPath hcb (by decide) _
  · exact h₃.allocPath hcb (by decide) _

/-! ### Brackets -/

theorem parseParenExpr_lays (hrec : Lay g rec) (h : Good g c s) (hk : g.kind c = .l_paren) :
    Lays (parseParenExpr n rec (g.side.tokenAt c)) (LaidMoving g c) s := by
  unfold parseParenExpr
  refine h.bindAdvance (by simp [hk]) fun s₁ _ h₁ => ?_
  refine Lays.withStructLit h₁ (fun s₂ _ h₂ => h₂.bindCheck _ ?_) fun _ _ _ hi => hi.lit _
  split_ifs with hclose
  · refine h₂.bindAdvance (by simp_all) fun s₃ _ h₃ => ?_
    exact h₃.allocPrevious le_rfl (by omega) (List.append_nil []).symm (by decide) DocKids.none
      (Kids.none (g.start_le_before_of_lt (by omega)))
  · refine (hrec.expr h₂).bind fun inner s₃ hle₃ h₃ => ?_
    have hrow₃ : RowTo g (g.start c) (c + 1) [] [inner] s₃ :=
      RowTo.push le_rfl rfl (Kids.none (g.start_le_before c)) h₃ hle₃
    obtain ⟨b, hb, -, h₃, hinner⟩ := h₃
    refine h₃.bindCheck _ ?_
    split_ifs
    · unfold parseTupleRest
      refine (parseMore_lays hrec.exprs hrow₃).bind fun elems s₄ _ h₄ => ?_
      exact h₄.bracket le_rfl (Nat.lt_succ_self c) DocKids.none (by decide) (by decide)
    · refine (h₃.expect (by decide) _ _).bind ?_
      rintro _ s₄ hle₄ ⟨-, b', hbb, -, -, -, h₄⟩
      exact Lays.pure ⟨b', by omega, fun _ => by omega, h₄,
        (hinner.later hle₄).widen (Nat.le_succ c) hbb⟩

theorem parseArrayRest_lays (hrec : Lay g rec) {first : NodeIndex}
    (h : RowTo g (g.start a) (a + 1) [] [first] s) {z : Span} (hz : z.start = g.start a) :
    Lays (parseArrayRest n rec z first) (LaidMoving g a) s := by
  unfold parseArrayRest parseConstExpr
  rw [hz]
  refine (h.consume (by decide)).bind fun semi s₁ _ h₁ => ?_
  split_ifs
  · refine (h₁.element hrec.exprs).bind fun count s₂ _ h₂ => ?_
    exact h₂.bracket le_rfl (Nat.lt_succ_self a) DocKids.none (by decide) (by decide)
  · refine (parseMore_lays hrec.exprs h₁).bind fun elems s₂ _ h₂ => ?_
    exact h₂.bracket le_rfl (Nat.lt_succ_self a) DocKids.none (by decide) (by decide)

theorem parseArrayLitExpr_lays (hrec : Lay g rec) (h : Good g c s) (hk : g.kind c = .l_square) :
    Lays (parseArrayLitExpr n rec) (LaidMoving g c) s := by
  unfold parseArrayLitExpr
  refine h.bindAdvance (by simp [hk]) fun s₁ _ h₁ => ?_
  refine Lays.withStructLit h₁ (fun s₂ _ h₂ => h₂.bindCheck _ ?_) fun _ _ _ hi => hi.lit _
  split_ifs with hclose
  · refine h₂.bindAdvance (by simp_all) fun s₃ _ h₃ => ?_
    exact h₃.allocPrevious le_rfl (by omega) (List.append_nil []).symm (by decide) DocKids.none
      (Kids.none (g.start_le_before_of_lt (by omega)))
  · refine ((RowTo.start h₂).element hrec.exprs).bind fun first s₃ _ h₃ => ?_
    exact parseArrayRest_lays hrec h₃ rfl

theorem parseTensorValues_lays (hrec : Lay g rec) (h : RowTo g x c [] [] s) :
    Lays (parseTensorValues n rec) (fun acc s' => RowTo g x c [] acc s') s := by
  unfold parseTensorValues
  obtain ⟨b, es, hcb, hacc, h, hkids⟩ := h
  refine Lays.withStructLit h (fun s₁ hle₁ h₁ => ?_) fun _ _ _ hr => hr.lit _
  have hrow₁ : RowTo g x c [] [] s₁ := ⟨b, es, hcb, hacc, h₁, hkids.later hle₁⟩
  refine (hrow₁.element hrec.exprs).bind fun first s₂ _ h₂ => ?_
  exact parseMore_lays hrec.exprs h₂

theorem parseTensorLitExpr_lays (hrec : Lay g rec) (h : Good g c s) (hk : g.kind c = .kw_tensor) :
    Lays (parseTensorLitExpr n rec) (LaidMoving g c) s := by
  unfold parseTensorLitExpr parseConstExpr
  refine h.bindAdvance (by simp [hk]) fun s₁ _ h₁ => ?_
  refine ((RowTo.start h₁).expect (by decide) _ _).bind fun _ s₂ _ h₂ => ?_
  refine (parseTensorValues_lays hrec h₂).bind fun values s₃ _ h₃ => ?_
  refine (h₃.expect (by decide) _ _).bind fun _ s₄ _ h₄ => ?_
  refine (parseCommaSeparated_lays hrec.exprs h₄).bind fun children s₅ _ h₅ => ?_
  refine (h₅.move fun _ _ h => requireDim_lays h _).bind fun _ s₆ _ h₆ => ?_
  exact h₆.bracket le_rfl (Nat.lt_succ_self c) DocKids.none (by decide) (by decide)


/-! ### Operators -/

/-- A node around its last child, behind a prefix operator at token `c`. -/
theorem Placed.prefixed (h : Good g b s) (hcb : c < b) (hi : Placed g s (c + 1) b i)
    {payload : ℕ} :
    Lays (Parser.spanOf i >>= fun z =>
      alloc .UnaryExpr ⟨g.start c, z.end⟩ [i] payload 0) (LaidMoving g c) s := by
  refine hi.spanOf fun z hz => ?_
  exact (h.allocTo le_rfl (Nat.le_succ c) le_rfl hcb hz le_rfl (Kids.none (g.start_le_before c))
    (by decide)).mono fun _ _ _ hj => hj.weaken fun _ => hcb

theorem parseUnaryExpr_lays (hrec : Lay g rec) (h : Good g c s) (hk : g.kind c ≠ .eof) :
    Lays (parseUnaryExpr rec (g.side.tokenAt c)) (LaidMoving g c) s := by
  unfold parseUnaryExpr
  refine h.bindAdvance hk fun s₁ _ h₁ => ?_
  refine (hrec.expr h₁).bind ?_
  rintro operand s₂ - ⟨b, hb, -, h₂, hoperand⟩
  exact hoperand.prefixed h₂ hb

theorem parseStarExpr_lays (hrec : Lay g rec) (h : Good g c s) (hk : g.kind c ≠ .eof) :
    Lays (parseStarExpr rec (g.side.tokenAt c)) (LaidMoving g c) s := by
  unfold parseStarExpr
  refine h.bindAdvance hk fun s₁ _ h₁ => ?_
  refine (hrec.expr h₁).bind ?_
  rintro operand s₂ - ⟨b, hb, -, h₂, hoperand⟩
  refine (h₂.consume (by decide)).bind ?_
  rintro _ s₃ hle₃ (⟨rfl, -, h₃⟩ | ⟨rfl, -, rfl⟩)
  · refine (hrec.expr h₃).bind ?_
    rintro rhs s₄ hle₄ ⟨d, hd, -, h₄, hrhs⟩
    refine hrhs.spanOf fun z hz => ?_
    have hkids : Kids s₄ (g.start c) (g.before b) [operand] :=
      ((hoperand.later hle₃).later hle₄).kids.from (g.start_mono (Nat.le_succ c))
    exact (h₄.allocTo le_rfl (by omega) le_rfl hd hz (Nat.le_succ b) hkids (by decide)).mono
      fun _ _ _ hi => hi.weaken fun _ => by omega
  · exact hoperand.prefixed h₂ hb

theorem parseBadExpr_lays (h : Good g c s) :
    Lays (parseBadExpr (g.side.tokenAt c))
      (LaidIf (isSync (g.kind c) = false ∧ g.kind c ≠ .eof) g c) s := by
  unfold parseBadExpr
  change Lays (if isSync (g.kind c) = true then _ else _) _ s
  split_ifs with hsync
  · refine Lays.bind (h.addError (g.proper_span c) _) ?_
    rintro _ s₁ - ⟨h₁, hdirty⟩
    exact (h₁.errorHere hdirty le_rfl).mono fun _ _ _ hi => hi.weaken fun hno => by simp_all
  · refine h.skip.bind ?_
    rintro _ s₁ - ⟨b, hcb, hb, h₁⟩
    refine Lays.bind (h₁.addError (g.proper_span c) _) ?_
    rintro _ s₂ - ⟨h₂, hdirty⟩
    refine (h₂.errorNode hdirty (le_refl c) hcb).mono fun _ _ _ hi => ⟨b, hcb, fun hno => ?_, hi⟩
    rw [hb hno.2]
    exact Nat.lt_succ_self c

/-! ### Postfix forms -/

theorem parseArgs_lays (hrec : Lay g rec) (h : RowTo g x c [] [] s) :
    Lays (parseArgs n rec) (fun acc s' => RowTo g x c [] acc s') s := by
  unfold parseArgs
  refine Lays.read rfl ?_
  split_ifs
  · exact Lays.pure h
  · exact (h.element hrec.exprs).bind fun first s₁ _ h₁ => parseMore_lays hrec.exprs h₁

theorem parseArgList_lays (hrec : Lay g rec) (h : Good g c s) (hk : g.kind c = .l_paren) :
    Lays (parseArgList n rec) (LaidMoving g c) s := by
  unfold parseArgList
  refine (h.expectHit (by decide) hk _ _).bind ?_
  rintro t s₁ - ⟨ht, h₁⟩
  rw [ht]
  refine Lays.withStructLit h₁ (fun s₂ _ h₂ => ?_) fun _ _ _ hi => hi.lit _
  refine (parseArgs_lays hrec (RowTo.start h₂)).bind fun args s₃ _ h₃ => ?_
  exact h₃.bracket le_rfl (Nat.lt_succ_self c) DocKids.none (by decide) (by decide)

/-- A node from its first child to its last one, with a token or none between them. -/
theorem Spot.pair {z w : Span} {j : NodeIndex} {d e : ℕ} (h : Good g e s) (had : a ≤ d)
    (hde : d ≤ e) (hz : Spot g s a b i z) (hbd : b ≤ d) (hw : Spot g s d e j w) {kind : NodeKind}
    (hkind : kind ≠ .DocComment) {payload : ℕ} :
    Lays (alloc kind ⟨z.start, w.end⟩ [i, j] payload 0) (LaidIf (a < e) g a) s := by
  refine h.allocFrom (had.trans hde) hz (hw.kids hbd) (fun hs => ?_) hw.2.2 hkind
  obtain ⟨-, -, hlow, hhigh⟩ := hw.2.1 hs
  refine ⟨?_, hhigh⟩
  exact ((hz.2.1 hs).2.2.2.trans (g.before_mono (Nat.succ_le_succ hbd))).trans hlow

theorem parseCall_lays (hrec : Lay g rec) (h : Good g c s) (hk : g.kind c = .l_paren)
    (hac : a ≤ c) (hlhs : Placed g s a c lhs) :
    Lays (parseCall n rec lhs) (LaidMoving g a) s := by
  unfold parseCall
  refine (parseArgList_lays hrec h hk).bind ?_
  rintro args s₁ hle₁ ⟨b, hb, hlt, h₁, hargs⟩
  refine (hlhs.later hle₁).spanOf fun z hz => hargs.spanOf fun w hw => ?_
  exact (hz.pair h₁ hac hb le_rfl hw (by decide)).mono
    fun _ _ _ hi => hi.weaken fun _ => lt_of_le_of_lt hac (hlt trivial)

/-- A node from its first child up to the previous token. -/
theorem Spot.upTo {z : Span} (h : Good g (c + 1) s) (hab : a ≤ b) (hbc : b ≤ c)
    (hz : Spot g s a b i z) {kind : NodeKind} (hkind : kind ≠ .DocComment) {payload : ℕ} :
    Lays (alloc kind ⟨z.start, g.before (c + 1)⟩ [i] payload 0) (LaidMoving g a) s := by
  refine (h.allocFrom (by omega) hz (Kids.none (g.before_mono (by omega))) (fun hs => ?_)
    (fun _ => le_rfl) hkind).mono fun _ _ _ hi => hi.weaken fun _ => by omega
  exact ⟨hz.end_le (Nat.lt_succ_of_le hbc) hs, g.before_mono (Nat.le_succ _)⟩

theorem parsePropagate_lays (h : Good g c s) (hk : g.kind c ≠ .eof) (hac : a ≤ c)
    (hlhs : Placed g s a c lhs) : Lays (parsePropagate lhs) (LaidMoving g a) s := by
  unfold parsePropagate
  refine h.bindAdvance hk fun s₁ hle₁ h₁ => ?_
  refine (hlhs.later hle₁).spanOf fun z hz => h₁.bindPrevious ?_
  exact hz.upTo h₁ hac le_rfl (by decide)

theorem parseCast_lays (hrec : Lay g rec) (h : Good g c s) (hk : g.kind c ≠ .eof) (hac : a ≤ c)
    (hlhs : Placed g s a c lhs) : Lays (parseCast rec lhs) (LaidMoving g a) s := by
  unfold parseCast
  refine h.bindAdvance hk fun s₁ hle₁ h₁ => (hrec.type h₁).bind ?_
  rintro type s₂ hle₂ ⟨b, hb, -, -, h₂, htype⟩
  refine ((hlhs.later hle₁).later hle₂).spanOf fun z hz => htype.spanOf fun w hw => ?_
  exact (hz.pair h₂ (by omega) hb (Nat.le_succ c) hw (by decide)).mono
    fun _ _ _ hi => hi.weaken fun _ => by omega

theorem parsePostfixIndex_lays (hrec : Lay g rec) (h : Good g c s) (hk : g.kind c ≠ .eof)
    (hac : a ≤ c) (hlhs : Placed g s a c lhs) :
    Lays (parsePostfixIndex n rec lhs) (LaidMoving g a) s := by
  unfold parsePostfixIndex
  refine h.bindAdvance hk fun s₁ hle₁ h₁ => ?_
  refine (hlhs.later hle₁).spanOf fun z hz => ?_
  refine Lays.bind (Q := fun indices s' => RowTo g (g.before c) (c + 1) [] indices s')
    (Lays.withStructLit h₁ (fun s₂ _ h₂ => ?_) fun _ _ _ hr => hr.lit _)
    fun indices s₂ hle₂ h₂ => ?_
  · refine ((RowTo.none [] h₂ (g.before_mono (Nat.le_succ c))).element hrec.exprs).bind ?_
    exact fun first s₃ _ h₃ => parseMore_lays hrec.exprs h₃
  · refine (h₂.closed (by decide) _ _).bind ?_
    rintro t s₃ hle₃ ⟨j, es, hcj, rfl, ht, ⟨b, hjb, hbj, -, hb, h₃⟩, hkids⟩
    rw [ht]
    refine (h₃.allocFrom (by omega) ((hz.later hle₂).later hle₃)
      (hkids.to (g.before_mono (Nat.le_succ j))) (fun hs => ?_) (fun hs => ?_) ?_).mono
        fun _ _ _ hi => hi.weaken fun _ => by omega
    · exact ⟨((hz.later hle₂).later hle₃).end_le (by omega) hs, g.before_mono (by omega)⟩
    · rw [hb hs]
    · split_ifs <;> decide

theorem parseField_lays (h : Good g (c + 1) s) (hac : a ≤ c) (hlhs : Placed g s a c lhs) :
    Lays (parseField lhs) (LaidMoving g a) s := by
  unfold parseField
  refine (h.expectAndIntern (by decide) _).bind ?_
  rintro field s₁ hle₁ ⟨b, hcb, -, -, -, h₁⟩
  obtain ⟨b, rfl⟩ : ∃ b', b = b' + 1 := ⟨b - 1, by omega⟩
  refine (hlhs.later hle₁).spanOf fun z hz => h₁.bindPrevious ?_
  exact hz.upTo h₁ hac (by omega) (by decide)

/-- The element index of a tuple ends with its token, of which it may be the first half. -/
theorem allocTupleIndex_lays (h : Good g (c + 1) s) (hac : a ≤ c) {z : Span}
    (hz : Spot g s a b lhs z) (hend : s.Fine → z.end ≤ g.before (c + 1)) (text : Bytes) :
    Lays (allocTupleIndex lhs (g.before (c + 1)) text) (fun i s' => Good g (c + 1) s' ∧
      ∃ w, Spot g s' a (c + 1) i w ∧ w.end = g.before (c + 1)) s := by
  unfold allocTupleIndex
  refine hz.1.spanOf ((h.intern _).bind fun name s₁ hle₁ h₁ => ?_)
  have hz₁ := hz.later hle₁
  have hend₁ : s₁.Fine → z.end ≤ g.before (c + 1) := fun hs => hend (hle₁.fine hs)
  have hkids : Kids s₁ z.start (g.before (c + 1)) [lhs] := fun hs =>
    (NodePool.Row.one hz₁.1 (hz₁.2.1 hs.fine).2.1).to (hend₁ hs.fine)
  refine (h₁.allocSpot (a := a) (List.nil_append _).symm (by decide) DocKids.none hkids
    (fun hs => ?_) fun _ => le_rfl).mono fun i s₂ _ hi => ⟨hi.1, _, hi.2, rfl⟩
  obtain ⟨hstart, hord, -, -⟩ := hz₁.2.1 hs
  exact ⟨hstart, hord.trans (hend₁ hs), g.before_mono (by omega), g.before_mono (Nat.le_succ _)⟩

theorem floatIndex_lays (h : Good g c s) :
    Lays floatIndex (fun r s' => s' = s ∧ ∀ t, r = some t → t.1 = g.side.tokenAt c ∧
      g.kind c = .float_literal) s := by
  unfold floatIndex
  refine h.bindCheck _ ?_
  split_ifs with hk
  · refine h.bindPeekToken (Lays.read rfl (Lays.pure ⟨rfl, fun t ht => ?_⟩))
    obtain ⟨r, -, rfl⟩ := Option.map_eq_some_iff.mp ht
    exact ⟨rfl, by simpa using hk⟩
  · exact Lays.pure ⟨rfl, fun t ht => nomatch ht⟩

/-- One float token becomes two indices that both end with it. -/
theorem parseFloatIndex_lays (h : Good g c s) (hk : g.kind c ≠ .eof) (hbc : b < c)
    (hac : a ≤ b) (hlhs : Placed g s a b lhs) (intPart fracPart : Bytes) :
    Lays (parseFloatIndex lhs (g.side.tokenAt c) intPart fracPart) (LaidMoving g a) s := by
  unfold parseFloatIndex
  refine h.bindAdvance hk fun s₁ hle₁ h₁ => ?_
  obtain ⟨z, hz⟩ := hlhs.later hle₁
  refine (allocTupleIndex_lays h₁ (by omega) hz (hz.end_le (by omega)) intPart).bind ?_
  rintro i s₂ - ⟨h₂, w, hw, hend⟩
  split_ifs
  · refine (allocTupleIndex_lays h₂ (by omega) hw (fun _ => hend.le) fracPart).mono ?_
    rintro j s₃ - ⟨h₃, v, hv, -⟩
    exact ⟨c + 1, by omega, fun _ => by omega, h₃, v, hv⟩
  · exact Lays.pure ⟨c + 1, by omega, fun _ => by omega, h₂, w, hw⟩

theorem parseDot_lays (h : Good g c s) (hk : g.kind c ≠ .eof) (hac : a ≤ c)
    (hlhs : Placed g s a c lhs) : Lays (parseDot lhs) (LaidMoving g a) s := by
  unfold parseDot
  refine h.bindAdvance hk fun s₁ hle₁ h₁ => h₁.bindCheck _ ?_
  have hlhs₁ := hlhs.later hle₁
  split_ifs with hint
  · refine h₁.bindAdvance (by simp_all) fun s₂ hle₂ h₂ => Lays.read rfl ?_
    obtain ⟨z, hz⟩ := hlhs₁.later hle₂
    refine (allocTupleIndex_lays h₂ (by omega) hz (hz.end_le (by omega)) _).mono ?_
    rintro i s₃ - ⟨h₃, w, hw, -⟩
    exact ⟨c + 1 + 1, by omega, fun _ => by omega, h₃, w, hw⟩
  · refine (floatIndex_lays h₁).bind ?_
    rintro r s₂ - ⟨rfl, hr⟩
    cases r with
    | none => exact parseField_lays h₁ hac hlhs₁
    | some t =>
      obtain ⟨ht, hfloat⟩ := hr t rfl
      have hkind : g.kind (c + 1) ≠ .eof := by simp [hfloat]
      have hfloatIndex := parseFloatIndex_lays h₁ hkind (Nat.lt_succ_self c) hac hlhs₁ t.2.1 t.2.2
      rw [← ht] at hfloatIndex
      exact hfloatIndex

theorem postfixTurn_lays (hrec : Lay g rec) (h : LaidIf p g a lhs s) :
    Lays (postfixTurn n rec lhs) (fun r s' => r.Leads (fun i => LaidIf p g a i s')
      (fun i => LaidIf p g a i s')) s := by
  obtain ⟨c, hac, hp, h, hlhs⟩ := h
  have again : ∀ m : ParserM NodeIndex, Lays m (LaidMoving g a) s →
      Lays (m >>= fun i => pure (.again i)) (fun (r : Turn NodeIndex NodeIndex) s' => r.Leads
        (fun i => LaidIf p g a i s') (fun i => LaidIf p g a i s')) s :=
    fun m hm => hm.bind fun i s' _ hi => Lays.pure (hi.weaken fun _ => trivial)
  unfold postfixTurn
  refine h.bindPeek ?_
  split
  · exact again _ (parseCall_lays hrec h ‹_› hac hlhs)
  · exact again _ (parseDot_lays h (by simp [*]) hac hlhs)
  · exact again _ (parsePostfixIndex_lays hrec h (by simp [*]) hac hlhs)
  · exact again _ (parsePropagate_lays h (by simp [*]) hac hlhs)
  · exact again _ (parseCast_lays hrec h (by simp [*]) hac hlhs)
  · exact Lays.pure ⟨c, hac, hp, h, hlhs⟩

theorem parsePostfixOrCallExpr_lays (hrec : Lay g rec) (h : LaidIf p g a lhs s) :
    Lays (parsePostfixOrCallExpr n rec lhs) (LaidIf p g a) s :=
  Lays.iterate (I := fun i s' => LaidIf p g a i s') (fun _ _ hI => postfixTurn_lays hrec hI) n h

/-! ### The Pratt loop -/

/-- At the end of the stream there is no operator to move behind, and nothing comes after it. -/
theorem parseInfix_lays (hrec : Lay g rec) (rightBP : ℤ) (h : LaidIf p g a lhs s) :
    Lays (parseInfix rec rightBP lhs) (fun r s' => r.Leads (fun i => LaidIf p g a i s')
      (fun i => LaidIf p g a i s')) s := by
  obtain ⟨c, hac, hp, h, hlhs⟩ := h
  unfold parseInfix
  refine h.advance.bind ?_
  rintro op s₁ hle₁ ⟨rfl, b, hcb, -, -, -, h₁⟩
  refine (hrec.expr h₁).bind ?_
  rintro rhs s₂ hle₂ ⟨d, hbd, -, h₂, hrhs⟩
  have hpd : p → a < d := fun hyes => (hp hyes).trans_le (hcb.trans hbd)
  refine Lays.kindOf fun kind => ?_
  split_ifs
  · exact Lays.pure ⟨d, by omega, hpd, h₂, hrhs.widen (hac.trans hcb) le_rfl⟩
  · refine ((hlhs.later hle₁).later hle₂).spanOf fun z hz => hrhs.spanOf fun w hw => ?_
    refine (hz.pair h₂ (hac.trans hcb) hbd hcb hw (by decide)).bind fun i s₃ _ hi => ?_
    obtain ⟨e, hae, hlt, hi⟩ := hi
    exact Lays.pure ⟨e, hae, fun hyes => hlt (hpd hyes), hi⟩

theorem infixTurn_lays (hrec : Lay g rec) (minBP : ℤ) (h : LaidIf p g a lhs s) :
    Lays (infixTurn n rec minBP lhs) (fun r s' => r.Leads (fun i => LaidIf p g a i s')
      (fun i => LaidIf p g a i s')) s := by
  unfold infixTurn
  refine (parsePostfixOrCallExpr_lays hrec h).bind fun lhs' s₁ _ h₁ => Lays.read rfl ?_
  dsimp only
  split_ifs
  · exact Lays.pure h₁
  · exact parseInfix_lays hrec _ h₁

end Eter.Parser
