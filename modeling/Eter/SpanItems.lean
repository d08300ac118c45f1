import Eter.SpanDecls

/-!
# The other declarations in the text
-/

namespace Eter.Parser
open Stateful Diag

variable {g : Ground} {c a b x n : ℕ} {s s' : PState} {rec : Rec} {i : NodeIndex} {p : Prop}
  {front acc docs : List NodeIndex} {k : Token.Kind} {β : Type} {R : β → PState → Prop}

/-! ### Structures, enumerations, and unions -/

theorem fieldColon_lays (h : Good g c s) :
    Lays parseStructField.fieldColon (fun _ s' => Reaches g c s') s := by
  unfold parseStructField.fieldColon
  refine (h.consume (by decide)).bind ?_
  rintro _ s₁ - (⟨rfl, -, h₁⟩ | ⟨rfl, -, rfl⟩)
  · exact Lays.pure ⟨c + 1, Nat.le_succ c, h₁⟩
  · refine h.bindPeekToken (Lays.bind (h.report (g.proper_span c) fun _ hl => nomatch hl) ?_)
    rintro _ s₂ - ⟨h₂, -⟩ v s₃ hv
    cases hv
    exact ⟨.refl s₂, c, le_rfl, h₂⟩

/-- Behind an element that starts with token `a`, nothing but regimes and names so far. -/
theorem Reaches.from (h : Reaches g (a + 1) s) : RowTo g (g.start a) (a + 1) [] [] s := by
  obtain ⟨b, hab, h⟩ := h
  exact ⟨b, [], hab, rfl, h, Kids.none (g.start_le_before_of_lt (by omega))⟩

theorem Reaches.skip (h : Reaches g b s) (hab : a ≤ b) : Reaches g a s := by
  obtain ⟨d, hbd, h⟩ := h
  exact ⟨d, hab.trans hbd, h⟩

theorem parseStructField_lays (hrec : Lay g rec) : Elements g x (parseStructField rec) := by
  refine .of fun c s h => ?_
  unfold parseStructField
  refine h.bindPeekToken (h.regime.bind ?_)
  rintro r s₁ - ⟨b, hcb, h₁⟩
  refine h₁.bindCheck _ ?_
  split_ifs with hid
  · refine h₁.bindPeekToken (h₁.bindPeek (Lays.bind
      (h₁.report (g.proper_span b) fun _ hl => nomatch hl) ?_))
    rintro _ s₂ - ⟨h₂, hdirty⟩
    have hle : g.start c ≤ g.before (b + 1) := g.start_le_before_of_lt (by omega)
    refine (h₂.alloc (a := c) (x := g.start c) (y := g.before (b + 1)) (List.append_nil []).symm
      (by decide) DocKids.none (Kids.none hle)
      (fun _ => ⟨le_rfl, hle, g.before_mono (by omega), le_rfl⟩)
      fun hs => (hdirty hs).elim).mono fun _ _ _ hi => ⟨b, hcb, False.elim, hi⟩
  · refine h₁.bindAdvance (by simp_all) fun s₂ _ h₂ => ?_
    refine (h₂.internText _).bind fun name s₃ _ h₃ => (fieldColon_lays h₃).bind ?_
    intro typed s₄ _ h₄
    have hrow₄ : RowTo g (g.start c) (c + 1) [] [] s₄ := (h₄.skip (by omega)).from
    split_ifs
    · refine (hrow₄.element hrec.types).bind fun type s₅ _ h₅ => ?_
      exact (h₅.allocPrevious le_rfl (Nat.lt_succ_self c) DocKids.none (by decide)).mono
        fun _ _ _ hi => hi.laid
    · exact (hrow₄.allocPrevious le_rfl (Nat.lt_succ_self c) DocKids.none (by decide)).mono
        fun _ _ _ hi => hi.laid

theorem parseEnumVariant_lays (hrec : Lay g rec) : Elements g x (parseEnumVariant n rec) := by
  refine .of fun c s h => ?_
  unfold parseEnumVariant
  refine h.bindPeekToken (h.bindCheck _ ?_)
  split_ifs with hid
  · refine h.bindPeekToken (h.bindPeek (Lays.bind
      (h.report (g.proper_span c) fun _ hl => nomatch hl) ?_))
    rintro _ s₁ - ⟨h₁, hdirty⟩
    exact (h₁.errorHere hdirty le_rfl).mono fun _ _ _ hi => hi.laid
  · refine h.bindAdvance (by simp_all) fun s₁ _ h₁ => ?_
    refine (h₁.internText _).bind fun name s₂ _ h₂ => ?_
    refine ((RowTo.start h₂).consume (by decide)).bind fun paren s₃ _ h₃ => ?_
    split_ifs
    · unfold parseTupleVariant
      refine (parseCommaSeparated_lays hrec.types h₃).bind fun types s₄ _ h₄ => ?_
      exact (h₄.bracket le_rfl (Nat.lt_succ_self c) DocKids.none (by decide) (by decide)).mono
        fun _ _ _ hi => hi.laid
    · refine (h₃.consume (by decide)).bind fun brace s₄ _ h₄ => ?_
      split_ifs
      · unfold parseStructVariant
        refine (parseCommaSeparated_lays (parseStructField_lays hrec) h₄).bind
          fun fields s₅ _ h₅ => ?_
        exact (h₅.bracket le_rfl (Nat.lt_succ_self c) DocKids.none (by decide) (by decide)).mono
          fun _ _ _ hi => hi.laid
      · refine (h₄.consume (by decide)).bind fun eq s₅ _ h₅ => ?_
        split_ifs
        · unfold parseConstExpr
          refine (h₅.element hrec.exprs).bind fun discriminant s₆ _ h₆ => ?_
          exact (h₆.allocPrevious le_rfl (Nat.lt_succ_self c) DocKids.none (by decide)).mono
            fun _ _ _ hi => hi.laid
        · exact (h₅.allocPrevious le_rfl (Nat.lt_succ_self c) DocKids.none (by decide)).mono
            fun _ _ _ hi => hi.laid

theorem parseBodyDecl_lays (hrec : Lay g rec) (h : Good g c s) {keyword : Token.Kind}
    (hk : g.kind c = keyword) (hkeyword : keyword ≠ .eof) {kind : NodeKind}
    (hkind : kind ≠ .DocComment) {el : ParserM NodeIndex} (hel : Elements g (c + 1) el)
    (hdocs : DocKids s (g.start c) docs) (construct : String) (flags : ℕ) :
    Lays (parseBodyDecl keyword kind construct n rec el docs flags) (LaidMoving g c) s := by
  unfold parseBodyDecl
  refine (h.expectHit hkeyword hk _ _).bind ?_
  rintro t s₁ hle₁ ⟨ht, h₁⟩
  rw [ht]
  refine ((RowTo.none docs h₁ (g.start_le_before c)).move
    fun _ _ h => h.name (by decide) _).bind fun name s₂ hle₂ h₂ => ?_
  refine (parseGenericParams_lays hrec h₂).bind fun generics s₃ hle₃ h₃ => ?_
  refine (h₃.expect (by decide) _ _).bind fun _ s₄ hle₄ h₄ => ?_
  refine (parseCommaSeparated_lays hel h₄).bind fun children s₅ hle₅ h₅ => ?_
  exact h₅.bracket le_rfl (Nat.lt_succ_self c)
    (hdocs.later (hle₁.trans (hle₂.trans (hle₃.trans (hle₄.trans hle₅))))) (by decide) hkind

/-! ### Modules, uses, and constants -/

theorem Lay.decls (hrec : Lay g rec) : Elements g c (rec .topLevelDecl) :=
  fun _ _ _ h => hrec.topLevelDecl h

theorem parseModDecl_lays (hrec : Lay g rec) (h : Good g c s) (hk : g.kind c = .kw_mod)
    (hdocs : DocKids s (g.start c) docs) (flags : ℕ) :
    Lays (parseModDecl n rec docs flags) (Laid g c) s := by
  unfold parseModDecl
  refine (h.expectHit (by decide) hk _ _).bind ?_
  rintro t s₁ hle₁ ⟨ht, h₁⟩
  rw [ht]
  refine (h₁.name (by decide) _).bind ?_
  rintro name s₂ hle₂ ⟨b, hcb, h₂⟩
  have hrow : ∀ {d s'}, b ≤ d → Good g d s' → RowTo g (g.start c) (c + 1) docs docs s' :=
    fun hbd h' => ⟨_, [], hcb.trans hbd, (List.append_nil _).symm, h',
      Kids.none (g.start_le_before_of_lt (by omega))⟩
  have hdocs₂ : DocKids s₂ (g.start c) docs := (hdocs.later hle₁).later hle₂
  refine (h₂.consume (by decide)).bind ?_
  rintro _ s₃ hle₃ (⟨rfl, -, h₃⟩ | ⟨rfl, -, rfl⟩)
  · rw [if_pos rfl]
    unfold parseModBody
    refine (parseUntil_lays hrec.decls (hrow (Nat.le_succ b) h₃)).bind
      fun children s₄ hle₄ h₄ => ?_
    exact (h₄.bracket le_rfl (Nat.lt_succ_self c) ((hdocs₂.later hle₃).later hle₄) (by decide)
      (by decide)).mono fun _ _ _ hi => hi.laid
  · rw [if_neg (by decide)]
    refine h₂.bindCheck _ ?_
    split_ifs with hsemi
    · refine h₂.bindPeekToken (h₂.bindAdvance (by simp_all) fun s₄ hle₄ h₄ => ?_)
      have hnone : Kids s₄ (g.start c) (g.before (b + 1)) [] :=
        Kids.none (g.start_le_before_of_lt (by omega))
      exact (h₄.allocPrevious le_rfl (by omega) (List.append_nil docs).symm (by decide)
        (hdocs₂.later hle₄) hnone).mono fun _ _ _ hi => hi.laid
    · refine h₂.bindPeekToken (Lays.bind (h₂.addError (g.proper_span b) _) ?_)
      rintro _ s₄ - ⟨h₄, hdirty⟩
      refine h₄.bindPeekToken ((h₄.errorHere hdirty (a := c) (by omega)).mono ?_)
      exact fun _ _ _ hi => hi.laid

theorem usePathTurn_lays {path : Span} (h : PathTo g a path s) :
    Lays (usePathTurn path) (fun r s' => r.Leads (fun path' => PathTo g a path' s')
      (fun path' => PathTo g a path' s')) s := by
  obtain ⟨b, hab, hp, h⟩ := h
  have hdone : PathTo g a path s := ⟨b, hab, hp, h⟩
  unfold usePathTurn
  refine h.bindCheck _ ?_
  split_ifs with hcolon
  · exact Lays.pure hdone
  · refine h.bindPeekAt 1 ?_
    split_ifs with hstar
    · exact Lays.pure hdone
    · refine h.bindPeekAt 1 ?_
      split_ifs with hid
      · exact Lays.pure hdone
      · refine h.bindAdvance (by simp_all) fun s₁ _ h₁ => h₁.bindAdvance (by simp_all) ?_
        refine fun s₂ _ h₂ => h₂.bindPrevious (Lays.pure ⟨b + 1 + 1, by omega, ?_, h₂⟩)
        rw [hp]
        rfl

/-- The end of a use declaration is the end of a token behind its keyword. -/
theorem parseUseTail_lays {path : Span} (h : PathTo g a path s) (fullPath : InternedStr) :
    Lays (parseUseTail path fullPath) (fun r s' => ∃ j b, a < j ∧ j ≤ b ∧
      r.1.end = g.before j ∧ Good g b s') s := by
  obtain ⟨d, had, hp, h⟩ := h
  have hend : path.end = g.before (d + 1) := by rw [hp]
  unfold parseUseTail
  refine h.bindCheck _ ?_
  split_ifs with hcolon
  · refine h.bindAdvance (by simp_all) fun s₁ _ h₁ => ?_
    refine (h₁.consume (by decide)).bind ?_
    rintro _ s₂ - (⟨rfl, -, h₂⟩ | ⟨rfl, -, rfl⟩)
    · refine h₂.bindPrevious ((h₂.internText _).bind fun full s₃ _ h₃ => ?_)
      exact Lays.pure ⟨d + 1 + 1 + 1, _, by omega, le_rfl, rfl, h₃⟩
    · refine h₁.bindPeekToken (Lays.bind (h₁.addError (g.proper_span _) _) ?_)
      rintro _ s₂ - ⟨h₂, -⟩
      exact Lays.pure ⟨d + 1, _, by omega, Nat.le_succ _, hend, h₂⟩
  · refine (h.consume (by decide)).bind ?_
    rintro _ s₁ - (⟨rfl, -, h₁⟩ | ⟨rfl, -, rfl⟩)
    · refine (h₁.expectAndIntern (by decide) _).bind ?_
      rintro _ s₂ - ⟨b, hdb, -, -, -, h₂⟩
      obtain ⟨b, rfl⟩ : ∃ b', b = b' + 1 := ⟨b - 1, by omega⟩
      refine h₂.bindPrevious ((h₂.internText _).bind fun full s₃ _ h₃ => ?_)
      exact Lays.pure ⟨b + 1, _, by omega, le_rfl, rfl, h₃⟩
    · exact Lays.pure ⟨d + 1, _, by omega, le_rfl, hend, h⟩

theorem parseUseDecl_lays (h : Good g c s) (hk : g.kind c = .kw_use)
    (hdocs : DocKids s (g.start c) docs) (flags : ℕ) :
    Lays (parseUseDecl n docs flags) (LaidMoving g c) s := by
  unfold parseUseDecl
  refine (h.expectHit (by decide) hk _ _).bind ?_
  rintro t s₁ hle₁ ⟨ht, h₁⟩
  refine (h₁.expect (by decide) _ _).bind ?_
  rintro _ s₂ hle₂ ⟨-, d, hcd, -, -, -, h₂⟩
  obtain ⟨d, rfl⟩ : ∃ d', d = d' + 1 := ⟨d - 1, by omega⟩
  refine h₂.bindPrevious (Lays.bind (Q := fun path s' => PathTo g d path s')
    (Lays.iterate (fun _ _ hI => usePathTurn_lays hI) n (PathTo.token h₂)) ?_)
  rintro path s₃ hle₃ ⟨b, hdb, hp, h₃⟩
  refine (h₃.internText _).bind fun full s₄ hle₄ h₄ => ?_
  refine (parseUseTail_lays ⟨b, hdb, hp, h₄⟩ full).bind ?_
  rintro tail s₅ hle₅ ⟨j, e, hdj, hje, hend, h₅⟩
  refine (h₅.expect (by decide) _ _).bind ?_
  rintro _ s₆ hle₆ ⟨-, e', hee, -, -, -, h₆⟩
  rw [ht, hend]
  have hle : g.start c ≤ g.before j := g.start_le_before_of_lt (by omega)
  have hdocs₆ : DocKids s₆ (g.start c) docs :=
    hdocs.later (hle₁.trans (hle₂.trans (hle₃.trans (hle₄.trans (hle₅.trans hle₆)))))
  exact (h₆.alloc (a := c) (List.append_nil _).symm (by decide) hdocs₆ (Kids.none hle)
    (fun _ => ⟨le_rfl, hle, g.before_mono (by omega), g.before_mono (by omega)⟩)
    fun _ => g.before_mono (by omega)).mono fun _ _ _ hi => ⟨e', by omega, fun _ => by omega, hi⟩

/-- Behind `unsafe` the keyword is missing, and its expression moves on. -/
theorem parseConstDecl_lays (hrec : Lay g rec) (h : Good g c s)
    (hk : isSync (g.kind c) = false ∧ g.kind c ≠ .eof) (hdocs : DocKids s (g.start c) docs)
    (flags : ℕ) : Lays (parseConstDecl rec docs flags) (LaidMoving g c) s := by
  unfold parseConstDecl parseConstExpr
  refine (h.expect (by decide) _ _).bind ?_
  rintro t s₁ hle₁ ⟨ht, hbehind⟩
  obtain ⟨b, es, hcb, hes, h₁, hkids⟩ := hbehind.rowTo
  have hrow₁ : RowTo g (g.start c) c docs docs s₁ := by
    refine ⟨b, [], hcb, (List.append_nil _).symm, h₁, ?_⟩
    rwa [show es = [] from hes.symm] at hkids
  refine (hrow₁.move fun _ _ h => h.name (by decide) _).bind fun name s₂ hle₂ h₂ => ?_
  refine (h₂.expect (by decide) _ _).bind fun _ s₃ hle₃ h₃ => ?_
  refine (h₃.element hrec.types).bind fun type s₄ hle₄ h₄ => ?_
  refine (h₄.expect (by decide) _ _).bind ?_
  rintro _ s₅ hle₅ ⟨d, es', hcd, hes', h₅, hkids'⟩
  refine (hrec.expr h₅).bind ?_
  rintro val s₆ hle₆ ⟨e, hde, hmoves, h₆, hval⟩
  have hce : c + 1 ≤ e := by
    rcases Nat.eq_or_lt_of_le hcd with rfl | hlt
    · exact hmoves hk
    · omega
  have hrow₆ : RowTo g (g.start c) (c + 1) docs (docs ++ [type, val]) s₆ := by
    refine ⟨e, es' ++ [val], hce, ?_, h₆, (hkids'.later hle₆).push hval.kids le_rfl⟩
    rw [← List.append_assoc, ← hes', List.append_assoc]
    rfl
  refine (hrow₆.expect (by decide) _ _).bind fun _ s₇ hle₇ h₇ => ?_
  rw [ht]
  have hdocs₇ : DocKids s₇ (g.start c) docs := hdocs.later (hle₁.trans (hle₂.trans (hle₃.trans
    (hle₄.trans (hle₅.trans (hle₆.trans hle₇))))))
  exact h₇.allocPrevious le_rfl (Nat.lt_succ_self c) hdocs₇ (by decide)

/-! ### Traits and implementations -/

theorem resyncMethod_lays (h : Good g c s) (errorsBefore : ℕ) :
    Lays (resyncMethod errorsBefore) (fun _ s' => Reaches g c s') s := by
  unfold resyncMethod
  refine Lays.read rfl ?_
  split_ifs
  · exact h.skipUntil _
  · exact Lays.pure ⟨c, le_rfl, h⟩

theorem methodTurn_lays (hrec : Lay g rec) (hc : 0 < c) (expectBody : Bool)
    (h : RowTo g x c front acc s) :
    Lays (methodTurn n rec expectBody acc) (fun r s' => r.Leads
      (fun acc' => RowTo g x c front acc' s') (fun acc' => RowTo g x c front acc' s')) s := by
  unfold methodTurn
  refine Lays.read rfl (Lays.read rfl ?_)
  split_ifs
  · exact Lays.pure h
  · obtain ⟨b, es, hcb, hacc, h, hkids⟩ := h
    refine (parseDocComments_lays h).bind ?_
    rintro methodDocs s₁ hle₁ ⟨d, hbd, h₁, hdocs⟩
    refine Lays.read rfl ?_
    refine (parseFnDecl_lays hrec h₁ (Or.inl (by omega)) (hdocs.widen (g.before_le_start d)) 0
      expectBody).bind ?_
    rintro method s₂ hle₂ ⟨e, hde, h₂, hmethod⟩
    have hrow₂ : RowTo g x c front (acc ++ [method]) s₂ :=
      ⟨e, es ++ [method], by omega, by rw [hacc, List.append_assoc], h₂,
        ((hkids.later hle₁).later hle₂).push hmethod hbd⟩
    exact (hrow₂.move fun _ _ h => resyncMethod_lays h _).bind fun _ s₃ _ h₃ => Lays.pure h₃

theorem parseMethods_lays (hrec : Lay g rec) (hc : 0 < c) (expectBody : Bool)
    (h : RowTo g x c front acc s) :
    Lays (iterate (methodTurn n rec expectBody) n acc)
      (fun acc' s' => RowTo g x c front acc' s') s :=
  Lays.iterate (I := fun acc' s' => RowTo g x c front acc' s')
    (fun _ _ hI => methodTurn_lays hrec hc expectBody hI) n h

theorem parseTraitDecl_lays (hrec : Lay g rec) (h : Good g c s) (hk : g.kind c = .kw_trait)
    (hdocs : DocKids s (g.start c) docs) (flags : ℕ) :
    Lays (parseTraitDecl n rec docs flags) (LaidMoving g c) s := by
  unfold parseTraitDecl
  refine (h.expectHit (by decide) hk _ _).bind ?_
  rintro t s₁ hle₁ ⟨ht, h₁⟩
  rw [ht]
  refine ((RowTo.none docs h₁ (g.start_le_before c)).move
    fun _ _ h => h.name (by decide) _).bind fun name s₂ hle₂ h₂ => ?_
  refine (parseGenericParams_lays hrec h₂).bind fun generics s₃ hle₃ h₃ => ?_
  refine (h₃.expect (by decide) _ _).bind fun _ s₄ hle₄ h₄ => ?_
  refine (parseMethods_lays hrec (Nat.succ_pos c) false h₄).bind fun children s₅ hle₅ h₅ => ?_
  exact h₅.bracket le_rfl (Nat.lt_succ_self c)
    (hdocs.later (hle₁.trans (hle₂.trans (hle₃.trans (hle₄.trans hle₅))))) (by decide) (by decide)

theorem parseImplTypes_lays (hrec : Lay g rec) (h : RowTo g x c front acc s) :
    Lays (parseImplTypes rec) (fun is s' => RowTo g x c front (acc ++ is) s') s := by
  unfold parseImplTypes
  obtain ⟨b, es, hcb, hacc, h, hkids⟩ := h
  refine (hrec.types b s le_rfl h).bind ?_
  rintro first s₁ hle₁ ⟨d, hbd, h₁, hfirst⟩
  have hkids₁ : Kids s₁ x (g.before d) (es ++ [first]) := (hkids.later hle₁).push hfirst le_rfl
  have hnull₁ : Kids s₁ x (g.before d) (es ++ [NullNode, first]) := by
    have hnull : Kids s₁ x (g.before b) (es ++ [NullNode]) :=
      (hkids.later hle₁).append (Kids.missing le_rfl)
    rw [show [NullNode, first] = [NullNode] ++ [first] from rfl, ← List.append_assoc]
    exact hnull.push hfirst le_rfl
  refine (h₁.consume (by decide)).bind ?_
  rintro _ s₂ hle₂ (⟨rfl, -, h₂⟩ | ⟨rfl, -, rfl⟩)
  · refine (hrec.types (d + 1) s₂ le_rfl h₂).bind ?_
    rintro type s₃ hle₃ ⟨e, hde, h₃, htype⟩
    refine Lays.pure ⟨e, es ++ [first] ++ [type], by omega, ?_, h₃,
      ((hkids₁.later hle₂).later hle₃).push htype (Nat.le_succ d)⟩
    rw [hacc, List.append_assoc, List.append_assoc]
    rfl
  · exact Lays.pure ⟨d, _, by omega, by rw [hacc, List.append_assoc], h₁, hnull₁⟩

theorem parseImplDecl_lays (hrec : Lay g rec) (h : Good g c s) (hk : g.kind c = .kw_impl)
    (hdocs : DocKids s (g.start c) docs) (flags : ℕ) :
    Lays (parseImplDecl n rec docs flags) (LaidMoving g c) s := by
  unfold parseImplDecl
  refine (h.expectHit (by decide) hk _ _).bind ?_
  rintro t s₁ hle₁ ⟨ht, h₁⟩
  rw [ht]
  refine (parseGenericParams_lays hrec (RowTo.none docs h₁ (g.start_le_before c))).bind
    fun generics s₂ hle₂ h₂ => ?_
  refine (parseImplTypes_lays hrec h₂).bind fun types s₃ hle₃ h₃ => ?_
  refine (h₃.expect (by decide) _ _).bind fun _ s₄ hle₄ h₄ => ?_
  refine (parseMethods_lays hrec (Nat.succ_pos c) true h₄).bind fun children s₅ hle₅ h₅ => ?_
  exact h₅.bracket le_rfl (Nat.lt_succ_self c)
    (hdocs.later (hle₁.trans (hle₂.trans (hle₃.trans (hle₄.trans hle₅))))) (by decide) (by decide)

/-! ### The top level -/

theorem parseUnsafeDecl_lays (hrec : Lay g rec) (h : Good g c s) (hk : g.kind c = .kw_unsafe_)
    (hdocs : DocKids s (g.start c) docs) (flags : ℕ) :
    Lays (parseUnsafeDecl n rec docs flags) (Adds g c) s := by
  unfold parseUnsafeDecl
  refine h.bindPeekAt 1 ?_
  split_ifs with hfn
  · refine h.bindAdvance (by simp [hk]) fun s₁ hle₁ h₁ => ?_
    refine (parseFnDecl_lays hrec h₁ (Or.inl (Nat.succ_pos c))
      ((hdocs.later hle₁).widen (g.start_mono (Nat.le_succ c))) _ true).mono ?_
    rintro i s₂ - ⟨b, hcb, h₂, hi⟩
    exact ⟨b, by omega, h₂, hi.from (g.start_mono (Nat.le_succ c))⟩
  · exact (parseConstDecl_lays hrec h (by rw [hk]; decide) hdocs flags).mono
      fun _ _ _ hi => hi.adds

theorem parseBadDecl_lays (h : Good g c s) (docs : List NodeIndex) :
    Lays (parseBadDecl docs) (Laid g c) s := by
  unfold parseBadDecl rejectDocs
  refine h.bindPeekToken (Lays.bind (Q := fun _ s' => Good g c s') ?_ fun _ s₁ _ h₁ => ?_)
  · split_ifs
    · exact (h.addError (g.proper_span c) _).mono fun _ _ _ h' => h'.1
    · exact Lays.pure h
  · refine Lays.bind (h₁.addError (g.proper_span c) _) ?_
    rintro _ s₂ - ⟨h₂, hdirty⟩
    refine h₂.synchronize.bind ?_
    rintro _ s₃ hle₃ ⟨b, hcb, h₃⟩
    exact (h₃.errorNode (fun hs => hdirty (hle₃.clean hs)) (le_refl c) hcb).mono
      fun _ _ _ hi => ⟨b, hcb, False.elim, hi⟩

theorem parseDecl_lays (hrec : Lay g rec) (h : Good g c s) (hdocs : DocKids s (g.start c) docs)
    (flags : ℕ) : Lays (parseDecl n rec docs flags) (Adds g c) s := by
  have adds : ∀ {p : Prop} {m : ParserM NodeIndex}, Lays m (LaidIf p g c) s →
      Lays m (Adds g c) s := fun hm => hm.mono fun _ _ _ hi => hi.adds
  unfold parseDecl
  refine h.bindPeek ?_
  split
  · exact parseFnDecl_lays hrec h (Or.inr ‹_›) hdocs flags true
  · exact parseUnsafeDecl_lays hrec h ‹_› hdocs flags
  · exact adds (parseConstDecl_lays hrec h (by simp [*, isSync]) hdocs flags)
  · exact adds (parseModDecl_lays hrec h ‹_› hdocs flags)
  · exact adds (parseBodyDecl_lays hrec h ‹_› (by decide) (by decide)
      (parseStructField_lays hrec) hdocs _ flags)
  · exact adds (parseBodyDecl_lays hrec h ‹_› (by decide) (by decide)
      (parseEnumVariant_lays hrec) hdocs _ flags)
  · exact adds (parseBodyDecl_lays hrec h ‹_› (by decide) (by decide)
      (parseStructField_lays hrec) hdocs _ flags)
  · exact adds (parseUseDecl_lays h ‹_› hdocs flags)
  · exact adds (parseTraitDecl_lays hrec h ‹_› hdocs flags)
  · exact adds (parseImplDecl_lays hrec h ‹_› hdocs flags)
  · exact adds (parseBadDecl_lays h docs)

theorem parseTopLevelDecl_lays (hrec : Lay g rec) (h : Good g c s) :
    Lays (parseTopLevelDecl n rec) (Adds g c) s := by
  unfold parseTopLevelDecl consumePub
  refine (parseDocComments_lays h).bind ?_
  rintro docs s₁ - ⟨b, hcb, h₁, hdocs⟩
  refine Lays.bind (Q := fun _ s' => Reaches g b s') ?_ ?_
  · refine (h₁.consume (by decide)).bind ?_
    rintro _ s₂ - (⟨rfl, -, h₂⟩ | ⟨rfl, -, rfl⟩)
    · exact Lays.pure ⟨b + 1, Nat.le_succ b, h₂⟩
    · exact Lays.pure ⟨b, le_rfl, h₁⟩
  · rintro flags s₂ hle₂ ⟨d, hbd, h₂⟩
    refine (parseDecl_lays hrec h₂
      ((hdocs.later hle₂).widen (g.before_le_start_of_le hbd)) flags).mono ?_
    rintro i s₃ - ⟨e, hde, h₃, hi⟩
    exact ⟨e, by omega, h₃, hi.from (g.start_mono (hcb.trans hbd))⟩

/-! ### The recursion -/

theorem run_lays (g : Ground) (n : ℕ) : Lay g (run n) := by
  induction n with
  | zero => constructor <;> intros <;> intro v s' hv <;> exact nomatch hv
  | succ n ih =>
    exact {
      expr := fun h => parseExpr_lays ih _ h
      type := fun h => parseType_lays ih h
      pat := fun h => parsePat_lays ih h
      stmt := fun h => parseStmt_lays ih h
      block := fun h => parseBlockExpr_lays ih h
      ifExpr := fun h hk => parseIfExpr_lays ih h hk
      topLevelDecl := fun h => parseTopLevelDecl_lays ih h }

/-- Children of a file that has at least one of them or has been read up to some token. -/
def FileRow (g : Ground) (acc : List NodeIndex) (s : PState) : Prop :=
  ∃ b, Good g b s ∧ (b = 0 ∧ acc = [] ∨ Kids s (g.start 0) (g.before b) acc)

theorem FileRow.push (h : FileRow g acc s) {el : ParserM NodeIndex}
    (hel : ∀ {b}, Good g b s → Lays el (Adds g b) s) :
    Lays el (fun i s' => FileRow g (acc ++ [i]) s') s := by
  obtain ⟨b, h, hrow⟩ := h
  refine (hel h).mono ?_
  rintro i s' hle ⟨d, hbd, h', hi⟩
  rcases hrow with ⟨rfl, rfl⟩ | hkids
  · exact ⟨d, h', Or.inr hi⟩
  · exact ⟨d, h', Or.inr ((hkids.later hle).push hi le_rfl)⟩

theorem parseFileDocComments_lays (h : Good g 0 s) :
    Lays (parseFileDocComments n) (FileRow g) s := by
  refine Lays.iterate (I := FileRow g) (fun docs s₁ hI => ?_) n ⟨0, h, Or.inl ⟨rfl, rfl⟩⟩
  obtain ⟨b, h₁, hrow⟩ := hI
  unfold docTurn
  refine h₁.bindCheck _ ?_
  split_ifs with hk
  · refine h₁.bindAdvance (by simp_all) fun s₂ hle₂ h₂ => ?_
    refine (h₂.internText _).bind fun text s₃ hle₃ h₃ => ?_
    refine Lays.bind (h₃.allocPath (a := b) le_rfl (by decide) text) ?_
    rintro i s₄ hle₄ ⟨d, hbd, -, h₄, hi⟩
    refine Lays.pure ⟨d, h₄, Or.inr ?_⟩
    rcases hrow with ⟨rfl, rfl⟩ | hkids
    · exact hi.kids
    · exact (hkids.later (hle₂.trans (hle₃.trans hle₄))).push hi.kids le_rfl
  · exact Lays.pure ⟨b, h₁, hrow⟩

theorem sourceTurn_lays (hrec : Lay g rec) (h : FileRow g acc s) :
    Lays (sourceTurn rec acc) (fun r s' => r.Leads (fun acc' => FileRow g acc' s')
      (fun acc' => FileRow g acc' s')) s := by
  unfold sourceTurn
  refine Lays.read rfl ?_
  split_ifs
  · exact Lays.pure h
  · exact (h.push hrec.topLevelDecl).bind fun decl s₁ _ h₁ => Lays.pure h₁

/-- At the start of the stream the previous token is the first one. -/
theorem Good.previous_end (h : Good g c s) :
    s.stream.previous.tokenSpan.end = g.before (max c 1) := by
  cases c with
  | succ c =>
    rw [h.previous, Nat.max_eq_left (by omega)]
    rfl
  | zero =>
    change _ = (g.side.tokenAt 0).tokenSpan.end
    unfold TokenStream.previous Side.tokenAt TokenStream.peekToken TokenStream.endToken
    rw [h.cursor, h.tokens]
    cases htokens : g.side.tokens <;> simp [TokenStream.fresh]

theorem parseSourceFile_lays (h : Good g 0 s) :
    Lays (parseSourceFile n) (fun _ s' => Reaches g 0 s') s := by
  unfold parseSourceFile
  refine h.bindPeekToken ((parseFileDocComments_lays h).bind fun docs s₁ _ h₁ => ?_)
  refine Lays.bind (Q := FileRow g)
    (Lays.iterate (I := FileRow g) (fun _ _ hI => sourceTurn_lays (run_lays g n) hI) n h₁) ?_
  rintro children s₂ - ⟨b, h₂, hrow⟩
  refine Lays.read rfl ?_
  change Lays (alloc .SourceFile ⟨g.start 0, s₂.stream.previous.tokenSpan.end⟩ children 0 0) _ s₂
  rw [h₂.previous_end]
  have hle : g.start 0 ≤ g.before (max b 1) := g.start_le_before_of_lt (by omega)
  have hkids : Kids s₂ (g.start 0) (g.before (max b 1)) children := by
    rcases hrow with ⟨-, rfl⟩ | hkids
    · exact Kids.none hle
    · exact hkids.to (g.before_mono (le_max_left _ _))
  refine (h₂.allocated (z := ⟨g.start 0, g.before (max b 1)⟩) (fun _ => ⟨hle, g.before_le_size _⟩)
    fun hs => ⟨[], children, rfl, fun _ hi => (nomatch hi), hkids hs⟩).mono ?_
  rintro i s₃ - ⟨h₃, -⟩
  exact ⟨b, Nat.zero_le b, h₃⟩

end Eter.Parser
