import Eter.SpanExprs

/-!
# Statements and blocks in the text
-/

namespace Eter.Parser
open Stateful Diag

variable {g : Ground} {c a b x n : ℕ} {s s' : PState} {rec : Rec} {i : NodeIndex} {p : Prop}
  {front acc : List NodeIndex}

/-! ### Semicolons -/

theorem requireSemi_lays (h : Good g (c + 1) s) (atEnd : Bool) (context noteText : String) :
    Lays (requireSemi atEnd context noteText) (fun _ s' => Reaches g (c + 1) s') s := by
  unfold requireSemi
  refine (h.consume (by decide)).bind ?_
  rintro _ s₁ - (⟨rfl, -, h₁⟩ | ⟨rfl, -, rfl⟩)
  · exact Lays.pure ⟨c + 1 + 1, by omega, h₁⟩
  · refine h.bindPrevious (h.bindPeekToken ?_)
    refine (h.report ?_ fun l hl => ?_).mono fun _ _ _ h' => ⟨c + 1, le_rfl, h'.1⟩
    · show Proper g.size (if atEnd = true then _ else _)
      split_ifs
      · exact ⟨le_rfl, g.inside c⟩
      · exact g.proper_span c
    · rw [List.mem_singleton.mp hl]
      exact g.proper_span (c + 1)

theorem parseExprStmt_lays (hrec : Lay g rec)
    (h : Good g c s) (hk : isSync (g.kind c) = false ∧ g.kind c ≠ .eof) :
    Lays (parseExprStmt rec) (LaidMoving g c) s := by
  unfold parseExprStmt
  refine (hrec.expr h).bind ?_
  rintro expr s₁ - ⟨b, hcb, hlt, h₁, hexpr⟩
  have hcb' := hlt hk
  refine Lays.kindOf fun kind => ?_
  obtain ⟨b, rfl⟩ : ∃ b', b = b' + 1 := ⟨b - 1, by omega⟩
  split_ifs
  · refine h₁.synchronize.bind ?_
    rintro _ s₂ hle₂ ⟨d, hbd, h₂⟩
    exact Lays.pure ⟨d, by omega, fun _ => by omega, h₂, (hexpr.later hle₂).widen le_rfl hbd⟩
  · refine (requireSemi_lays h₁ _ _ _).bind ?_
    rintro _ s₂ hle₂ ⟨d, hbd, h₂⟩
    exact Lays.pure ⟨d, by omega, fun _ => by omega, h₂, (hexpr.later hle₂).widen le_rfl hbd⟩

theorem parseBadStmt_lays (h : Good g c s) :
    Lays (parseBadStmt (g.side.tokenAt c)) (Laid g c) s := by
  unfold parseBadStmt
  refine Lays.bind (h.addError (g.proper_span c) _) ?_
  rintro _ s₁ - ⟨h₁, hdirty⟩
  refine h₁.synchronize.bind ?_
  rintro _ s₂ hle ⟨b, hcb, h₂⟩
  exact (h₂.errorNode (fun hs => hdirty (hle.clean hs)) (le_refl c) hcb).mono
    fun _ _ _ hi => ⟨b, hcb, False.elim, hi⟩

/-! ### Let statements -/

/-- The element behind a token, if the token is there. -/
theorem RowTo.optional {el : ParserM NodeIndex} (hel : Elements g c el)
    (h : RowTo g x c front acc s) {k : Token.Kind} (hk : k ≠ .eof) :
    Lays (Parser.consume k >>= fun hit => if hit = true then el >>= fun i => pure [i] else pure [])
      (fun is s' => RowTo g x c front (acc ++ is) s') s := by
  refine (h.consume hk).bind fun hit s₁ _ h₁ => ?_
  split_ifs
  · exact (h₁.element hel).bind fun i s₂ _ h₂ => Lays.pure h₂
  · exact Lays.pure (by rwa [List.append_nil])

theorem Good.regime (h : Good g c s) : Lays Parser.parseRegime (fun _ s' => Reaches g c s') s :=
  h.parseRegime.mono fun _ _ _ ⟨b, hcb, _, h'⟩ => ⟨b, hcb, h'⟩

theorem Good.name (h : Good g c s) {k : Token.Kind} (hk : k ≠ .eof) (construct : String) :
    Lays (Parser.expectName k construct) (fun _ s' => Reaches g c s') s :=
  (h.expectName hk construct).mono fun _ _ _ ⟨⟨b, hcb, _, _, _, h'⟩, _⟩ => ⟨b, hcb, h'⟩

theorem endsInError_reads {children : List NodeIndex} :
    ∀ v s', endsInError children s = .ok (v, s') → s' = s := by
  intro v s' h
  unfold endsInError at h
  cases hlast : children.getLast? with
  | none =>
    rw [hlast] at h
    cases h
    rfl
  | some i =>
    rw [hlast] at h
    have hlays : Lays (Parser.kindOf i >>= fun kind => pure (decide (kind = NodeKind.Error)))
        (fun _ s' => s' = s) s := Lays.kindOf fun _ => Lays.pure rfl
    exact (hlays _ _ h).2

theorem closeLet_lays (h : Good g (c + 1) s) (children : List NodeIndex) :
    Lays (closeLet children) (fun _ s' => Reaches g (c + 1) s') s := by
  unfold closeLet resyncLet
  refine Lays.readOnly endsInError_reads fun bad => ?_
  split_ifs
  · refine (h.skipUntil _).bind ?_
    rintro _ s₁ - ⟨b, hcb, h₁⟩
    refine (h₁.consume (by decide)).bind ?_
    rintro _ s₂ - (⟨-, -, h₂⟩ | ⟨-, -, rfl⟩)
    · exact Lays.pure ⟨b + 1, by omega, h₂⟩
    · exact Lays.pure ⟨b, hcb, h₁⟩
  · exact requireSemi_lays h _ _ _

theorem parseLetStmt_lays (hrec : Lay g rec) (h : Good g c s) (hk : g.kind c = .kw_let) :
    Lays (parseLetStmt rec) (LaidMoving g c) s := by
  unfold parseLetStmt
  refine (h.expectHit (by decide) hk _ _).bind ?_
  rintro t s₁ - ⟨ht, h₁⟩
  refine h₁.regime.bind fun regime s₂ _ ⟨b₂, hb₂, h₂⟩ => ?_
  refine (h₂.name (by decide) _).bind fun name s₃ _ ⟨b₃, hb₃, h₃⟩ => ?_
  have hrow₃ : RowTo g (g.start c) (c + 1) [] [] s₃ :=
    ⟨b₃, [], by omega, rfl, h₃, Kids.none (g.start_le_before_of_lt (by omega))⟩
  refine (hrow₃.optional hrec.types (by decide)).bind fun type s₄ _ h₄ => ?_
  refine (h₄.optional hrec.exprs (by decide)).bind fun init s₅ _ h₅ => ?_
  refine (h₅.move fun b hb hgood => ?_).bind fun _ s₆ _ h₆ => ?_
  · obtain ⟨b, rfl⟩ : ∃ b', b = b' + 1 := ⟨b - 1, by omega⟩
    exact closeLet_lays hgood _
  · rw [ht]
    exact h₆.allocPrevious le_rfl (Nat.lt_succ_self c) DocKids.none (by decide)

theorem parseRetStmt_lays (hrec : Lay g rec) (h : Good g c s) (hk : g.kind c = .kw_ret) :
    Lays (parseRetStmt rec) (LaidMoving g c) s := by
  unfold parseRetStmt
  refine (h.expectHit (by decide) hk _ _).bind ?_
  rintro t s₁ - ⟨ht, h₁⟩
  rw [ht]
  refine ((RowTo.start h₁).element hrec.exprs).bind fun retExpr s₂ _ h₂ => ?_
  exact h₂.bracket le_rfl (Nat.lt_succ_self c) DocKids.none (by decide) (by decide)

/-! ### Control flow -/

theorem parseHeaderExpr_lays (hrec : Lay g rec) : Elements g c (parseHeaderExpr rec) := by
  refine .of fun b s h => (Lays.withStructLit h (fun s₁ _ h₁ => hrec.expr h₁)
    fun _ _ _ hi => hi.lit _).mono fun _ _ _ hi => hi.laid

theorem Lay.blocks (hrec : Lay g rec) : Elements g c (rec .block) :=
  .of fun _ _ h => (hrec.block h).mono fun _ _ _ hi => hi.laid

theorem parseElse_lays (hrec : Lay g rec) (h : RowTo g x c front acc s) :
    Lays (parseElse rec) (fun is s' => RowTo g x c front (acc ++ is) s') s := by
  unfold parseElse
  obtain ⟨b, es, hcb, hacc, h, hkids⟩ := h
  refine h.bindCheck _ ?_
  split_ifs with helse
  · refine h.bindAdvance (by simp_all) fun s₁ hle₁ h₁ => h₁.bindCheck _ ?_
    have hkids₁ : Kids s₁ x (g.before (b + 1)) es :=
      (hkids.later hle₁).to (g.before_mono (Nat.le_succ b))
    split_ifs with hif
    · refine (hrec.ifExpr h₁ (by simpa using hif)).bind fun i s₂ hle₂ hi => Lays.pure ?_
      exact RowTo.push (by omega) hacc hkids₁ hi hle₂
    · refine (hrec.block h₁).bind fun i s₂ hle₂ hi => Lays.pure ?_
      exact RowTo.push (by omega) hacc hkids₁ hi hle₂
  · exact Lays.pure ⟨b, es, hcb, by rw [List.append_nil, hacc], h, hkids⟩

theorem parseIfExpr_lays (hrec : Lay g rec) (h : Good g c s) (hk : g.kind c = .kw_if) :
    Lays (parseIfExpr rec) (LaidMoving g c) s := by
  unfold parseIfExpr
  refine (h.expectHit (by decide) hk _ _).bind ?_
  rintro t s₁ - ⟨ht, h₁⟩
  rw [ht]
  refine ((RowTo.start h₁).element (parseHeaderExpr_lays hrec)).bind fun cond s₂ _ h₂ => ?_
  refine (h₂.element hrec.blocks).bind fun body s₃ _ h₃ => ?_
  refine (parseElse_lays hrec h₃).bind fun other s₄ _ h₄ => ?_
  exact h₄.allocPrevious le_rfl (Nat.lt_succ_self c) DocKids.none (by decide)

theorem parseWhileStmt_lays (hrec : Lay g rec) (h : Good g c s) (hk : g.kind c = .kw_while) :
    Lays (parseWhileStmt rec) (LaidMoving g c) s := by
  unfold parseWhileStmt
  refine (h.expectHit (by decide) hk _ _).bind ?_
  rintro t s₁ - ⟨ht, h₁⟩
  rw [ht]
  refine ((RowTo.start h₁).element (parseHeaderExpr_lays hrec)).bind fun cond s₂ _ h₂ => ?_
  refine (h₂.element hrec.blocks).bind fun body s₃ _ h₃ => ?_
  exact h₃.allocPrevious le_rfl (Nat.lt_succ_self c) DocKids.none (by decide)

/-- The loop ends with its body. -/
theorem parseForStmt_lays (hrec : Lay g rec) (h : Good g c s) (hk : g.kind c = .kw_for) :
    Lays (parseForStmt rec) (LaidMoving g c) s := by
  unfold parseForStmt
  refine (h.expectHit (by decide) hk _ _).bind ?_
  rintro t s₁ - ⟨ht, h₁⟩
  refine h₁.regime.bind fun regime s₂ _ ⟨b₂, hb₂, h₂⟩ => ?_
  refine (h₂.name (by decide) _).bind fun name s₃ _ ⟨b₃, hb₃, h₃⟩ => ?_
  have hrow₃ : RowTo g (g.start c) (c + 1) [] [] s₃ :=
    ⟨b₃, [], by omega, rfl, h₃, Kids.none (g.start_le_before_of_lt (by omega))⟩
  refine (hrow₃.expect (by decide) _ _).bind fun _ s₄ _ h₄ => ?_
  refine (h₄.element (parseHeaderExpr_lays hrec)).bind ?_
  rintro iterable s₅ - ⟨b, es, hb, hes, h₅, hkids⟩
  refine (hrec.block h₅).bind ?_
  rintro body s₆ hle₆ ⟨d, hbd, -, h₆, hbody⟩
  refine hbody.spanOf fun z hz => ?_
  rw [ht]
  have hkids₆ : Kids s₆ (g.start c) (g.before b) [iterable] := by
    rw [show [iterable] = es from hes]
    exact hkids.later hle₆
  exact (h₆.allocTo le_rfl (by omega) le_rfl hbd hz le_rfl hkids₆ (by decide)).mono
    fun _ _ _ hi => hi.weaken fun _ => by omega

theorem parseJumpStmt_lays (h : Good g c s) (hk : g.kind c ≠ .eof) {kind : NodeKind}
    (hkind : kind ≠ .DocComment) : Lays (parseJumpStmt kind) (LaidMoving g c) s := by
  unfold parseJumpStmt
  refine h.bindAdvance hk fun s₁ _ h₁ => ?_
  refine (h₁.expect (by decide) _ _).bind ?_
  rintro _ s₂ - ⟨-, b, hcb, -, -, -, h₂⟩
  have hle : g.start c ≤ g.before (c + 1) := g.start_le_before c
  refine (h₂.alloc (a := c) (List.append_nil []).symm hkind DocKids.none (Kids.none hle)
    (fun _ => ⟨le_rfl, hle, le_rfl, g.before_mono (by omega)⟩)
    fun _ => g.before_mono (by omega)).mono fun _ _ _ hi => ⟨b, by omega, fun _ => by omega, hi⟩

/-! ### Blocks -/

theorem Good.slipped (h : Good g c s) :
    Lays (Parser.slip .bareUnsafe) (fun _ s' => Good g c s') s := by
  have hmem : ∀ {l : List Slip}, .gappedParam ∈ l ++ [.bareUnsafe] → .gappedParam ∈ l := by
    intro l hl
    simpa using hl
  intro v s' hv
  cases hv
  obtain ⟨rs, hp, hfine, hclean⟩ := h.records
  refine ⟨⟨le_rfl, .refl _, List.prefix_rfl, List.prefix_append _ _, fun _ _ h => h⟩,
    ⟨h.tokens, h.cursor, ⟨rs, hp, fun hs => hfine fun hin => hs ?_, hclean⟩, h.errors,
      fun hin => h.exposed (hmem hin)⟩⟩
  exact List.mem_append_left _ hin

theorem openUnsafe_lays (h : Good g c s) :
    Lays openUnsafe (fun _ s' => Reaches g c s') s := by
  unfold openUnsafe
  refine (h.consume (by decide)).bind ?_
  rintro _ s₁ - (⟨rfl, -, h₁⟩ | ⟨rfl, -, rfl⟩)
  · exact Lays.pure ⟨c + 1, Nat.le_succ c, h₁⟩
  · refine (h.countStray _).bind fun _ s₁ _ h₁ => h₁.slipped.bind fun _ s₂ _ h₂ => ?_
    refine h₂.bindPeekToken (Grows.mono (h₂.report (g.proper_span c) fun _ hl => nomatch hl) ?_)
    exact fun _ _ _ h' => ⟨c, le_rfl, h'.1⟩

theorem Lay.stmts (hrec : Lay g rec) : Elements g c (rec .stmt) :=
  .of fun _ _ h => hrec.stmt h

theorem parseUnsafeBlock_lays (hrec : Lay g rec) (h : Good g c s) (hk : g.kind c = .kw_unsafe_) :
    Lays (parseUnsafeBlock n rec) (LaidMoving g c) s := by
  unfold parseUnsafeBlock
  refine (h.expectHit (by decide) hk _ _).bind ?_
  rintro t s₁ - ⟨ht, h₁⟩
  rw [ht]
  refine ((RowTo.start h₁).move fun _ _ h => openUnsafe_lays h).bind fun _ s₂ _ h₂ => ?_
  refine (parseUntil_lays hrec.stmts h₂).bind fun children s₃ _ h₃ => ?_
  exact h₃.bracket le_rfl (Nat.lt_succ_self c) DocKids.none (by decide) (by decide)

/-- Nothing behind an expected token so far. -/
theorem Behind.rowTo {k : Token.Kind} (h : Behind g c k s) :
    RowTo g (g.start c) c [] [] s := by
  obtain ⟨b, hcb, -, -, hb, h⟩ := h
  refine ⟨b, [], hcb, rfl, h, fun hs => ?_⟩
  rw [hb hs]
  exact g.start_le_before c

theorem parseBlockExpr_lays (hrec : Lay g rec) (h : Good g c s) :
    Lays (parseBlockExpr n rec) (LaidIf (g.kind c = .l_brace) g c) s := by
  unfold parseBlockExpr
  by_cases hk : g.kind c = .l_brace
  · refine (h.expectHit (by decide) hk _ _).bind ?_
    rintro t s₁ - ⟨ht, h₁⟩
    rw [ht]
    refine (parseUntil_lays hrec.stmts (RowTo.start h₁)).bind fun children s₂ _ h₂ => ?_
    exact (h₂.bracket le_rfl (Nat.lt_succ_self c) DocKids.none (by decide) (by decide)).mono
      fun _ _ _ hi => hi.weaken fun _ => trivial
  · refine (h.expect (by decide) _ _).bind ?_
    rintro t s₁ - ⟨ht, h₁⟩
    rw [ht]
    refine (parseUntil_lays hrec.stmts h₁.rowTo).bind fun children s₂ _ h₂ => ?_
    exact (h₂.bracketIf le_rfl le_rfl DocKids.none (by decide) (by decide)).mono
      fun _ _ _ hi => hi.weaken fun hyes => (hk hyes).elim

/-! ### Matches -/

theorem closeArm_lays (h : Good g c s) : Lays closeArm (fun _ s' => Reaches g c s') s := by
  unfold closeArm
  refine (h.consume (by decide)).bind ?_
  rintro _ s₁ - (⟨rfl, -, h₁⟩ | ⟨rfl, -, rfl⟩)
  · exact Lays.pure ⟨c + 1, Nat.le_succ c, h₁⟩
  · refine (h.consume (by decide)).bind ?_
    rintro _ s₁ - (⟨-, -, h₁⟩ | ⟨-, -, rfl⟩)
    · exact Lays.pure ⟨c + 1, Nat.le_succ c, h₁⟩
    · exact Lays.pure ⟨c, le_rfl, h⟩

theorem parseMatchArm_lays (hrec : Lay g rec) : Elements g a (parseMatchArm rec) := by
  refine .of fun c s h => ?_
  unfold parseMatchArm
  refine (hrec.pat h).bind ?_
  rintro pat s₁ - ⟨b, hcb, -, h₁, hpat⟩
  refine (h₁.expect (by decide) _ _).bind ?_
  rintro _ s₂ hle₂ ⟨-, d, hbd, -, -, -, h₂⟩
  refine (hrec.expr h₂).bind ?_
  rintro value s₃ hle₃ ⟨e, hde, -, h₃, hvalue⟩
  refine (closeArm_lays h₃).bind ?_
  rintro _ s₄ hle₄ ⟨j, hej, h₄⟩
  refine (((hpat.later hle₂).later hle₃).later hle₄).spanOf fun z hz => ?_
  refine ((hvalue.later hle₄).widen le_rfl hej).spanOf fun w hw => ?_
  exact (hz.pair h₄ (hcb.trans hbd) (hde.trans hej) hbd hw (by decide)).mono
    fun _ _ _ hi => hi.laid

theorem parseMatchExpr_lays (hrec : Lay g rec) (h : Good g c s) (hk : g.kind c = .kw_match) :
    Lays (parseMatchExpr n rec) (LaidMoving g c) s := by
  unfold parseMatchExpr
  refine (h.expectHit (by decide) hk _ _).bind ?_
  rintro t s₁ - ⟨ht, h₁⟩
  refine ((RowTo.start h₁).element (parseHeaderExpr_lays hrec)).bind ?_
  rintro scrutinee s₂ - ⟨b, es, hb, hes, h₂, hkids⟩
  refine ((RowTo.none [] h₂ le_rfl).expect (by decide) _ _).bind fun _ s₃ hle₃ h₃ => ?_
  refine (parseUntil_lays (parseMatchArm_lays hrec) h₃).bind fun arms s₄ hle₄ h₄ => ?_
  refine (h₄.closed (by decide) _ _).bind ?_
  rintro t' s₅ hle₅ ⟨j, es', hbj, hes', ht', hbehind, hkids'⟩
  rw [ht, ht']
  refine (hbehind.alloc le_rfl (by omega) (List.nil_append _).symm (by decide) DocKids.none
    ?_).mono fun _ _ _ hi => hi.weaken fun _ => by omega
  rw [show scrutinee :: arms = [scrutinee] ++ arms from rfl, show [scrutinee] = es from hes,
    show arms = es' from hes']
  exact (((hkids.later hle₃).later hle₄).later hle₅).append hkids'

/-! ### Dispatch -/

theorem parsePrefixExpr_lays (hrec : Lay g rec) (h : Good g c s) :
    Lays (parsePrefixExpr n rec) (LaidIf (isSync (g.kind c) = false ∧ g.kind c ≠ .eof) g c) s := by
  have moving : ∀ {m : ParserM NodeIndex}, Lays m (LaidMoving g c) s →
      Lays m (LaidIf (isSync (g.kind c) = false ∧ g.kind c ≠ .eof) g c) s :=
    fun hm => hm.mono fun _ _ _ hi => hi.weaken fun _ => trivial
  unfold parsePrefixExpr
  refine h.bindPeekToken ?_
  rw [show (g.side.tokenAt c).tokenKind = g.kind c from rfl]
  split_ifs with hlit hop
  · exact moving (h.bindAdvance (literal_ne_eof hlit) fun s₁ _ h₁ => parseLitExpr_lays h₁)
  · refine moving (parseUnaryExpr_lays hrec h ?_)
    rintro heof
    rw [heof] at hop
    cases hop
  · split
    · exact moving (parseNameExpr_lays hrec h ‹_›)
    · exact moving (parseParenExpr_lays hrec h ‹_›)
    · exact moving (parseArrayLitExpr_lays hrec h ‹_›)
    · exact moving (hrec.ifExpr h ‹_›)
    · exact moving (parseWhileStmt_lays hrec h ‹_›)
    · exact moving (parseMatchExpr_lays hrec h ‹_›)
    · exact moving (parseUnsafeBlock_lays hrec h ‹_›)
    · exact (hrec.block h).mono fun _ _ _ hi => hi.weaken fun _ => ‹_›
    · exact moving (parseTensorLitExpr_lays hrec h ‹_›)
    · exact moving (parseStarExpr_lays hrec h (by simp [*]))
    · exact parseBadExpr_lays h

theorem parseExpr_lays (hrec : Lay g rec) (minBP : ℤ) (h : Good g c s) :
    Lays (parseExpr n rec minBP)
      (LaidIf (isSync (g.kind c) = false ∧ g.kind c ≠ .eof) g c) s := by
  unfold parseExpr
  refine (parsePrefixExpr_lays hrec h).bind fun lhs s₁ _ h₁ => ?_
  exact Lays.iterate (fun _ _ hI => infixTurn_lays hrec minBP hI) n h₁

theorem startsExprStmt_starts {k : Token.Kind} (h : startsExprStmt k = true) :
    isSync k = false ∧ k ≠ .eof := by
  constructor
  · cases k <;> first | rfl | cases h
  · rintro rfl
    cases h

theorem parseStmt_lays (hrec : Lay g rec) (h : Good g c s) :
    Lays (parseStmt n rec) (Laid g c) s := by
  have laid : ∀ {p : Prop} {m : ParserM NodeIndex}, Lays m (LaidIf p g c) s →
      Lays m (Laid g c) s := fun hm => hm.mono fun _ _ _ hi => hi.laid
  unfold parseStmt
  refine h.bindPeekToken ?_
  rw [show (g.side.tokenAt c).tokenKind = g.kind c from rfl]
  split_ifs with hexpr
  · exact laid (parseExprStmt_lays hrec h (startsExprStmt_starts hexpr))
  · split
    · exact laid (parseLetStmt_lays hrec h ‹_›)
    · exact laid (hrec.ifExpr h ‹_›)
    · exact laid (parseForStmt_lays hrec h ‹_›)
    · exact laid (parseWhileStmt_lays hrec h ‹_›)
    · exact laid (hrec.block h)
    · exact laid (parseRetStmt_lays hrec h ‹_›)
    · exact laid (parseJumpStmt_lays h (by simp [*]) (by decide))
    · exact laid (parseJumpStmt_lays h (by simp [*]) (by decide))
    · exact laid (parseUnsafeBlock_lays hrec h ‹_›)
    · exact parseBadStmt_lays h

end Eter.Parser
