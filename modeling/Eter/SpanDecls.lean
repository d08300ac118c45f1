import Eter.SpanStmts

/-!
# Declarations in the text

A parameter that is missing altogether ends before it starts, if there is a gap in the text.
-/

namespace Eter.Parser
open Stateful Diag

variable {g : Ground} {c a b x n : ℕ} {s s' : PState} {rec : Rec} {i : NodeIndex} {p : Prop}
  {front acc docs : List NodeIndex} {k : Token.Kind} {β : Type} {R : β → PState → Prop}

/-! ### Spans up to the cursor -/

/-- The span from token `a` up to the previous token is not inverted. -/
def Spans (g : Ground) (a : ℕ) (s : PState) : Prop :=
  s.Fine → g.start a ≤ g.before s.stream.cursor

theorem Spans.later (h : Spans g a s) (hle : s.Later s') : Spans g a s' :=
  fun hs => (h (hle.fine hs)).trans (g.before_mono hle.forward)

theorem Spans.from (h : Spans g b s) (hab : a ≤ b) : Spans g a s :=
  fun hs => (g.start_mono hab).trans (h hs)

theorem Good.spans (h : Good g b s) (hab : a < b) : Spans g a s := fun _ => by
  rw [h.cursor]
  exact g.start_le_before_of_lt hab

theorem LaidIf.spans (h : LaidIf p g a i s) (hp : p) : Spans g a s := by
  obtain ⟨b, -, hlt, hgood, -⟩ := h
  exact hgood.spans (hlt hp)

/-- A child up to the previous token. -/
theorem Good.allocKid (h : Good g c s) (hac : a ≤ c) (hspan : Spans g a s) {kind : NodeKind}
    {docs kids ks : List NodeIndex} {payload flags : ℕ} (hks : ks = docs ++ kids)
    (hkind : kind ≠ .DocComment) (hdocs : DocKids s (g.start a) docs)
    (hkids : Kids s (g.start a) (g.before c) kids) :
    Lays (Parser.alloc kind ⟨g.start a, g.before c⟩ ks payload flags) (Adds g a) s := by
  have hle : s.Fine → g.start a ≤ g.before c := fun hs => by
    rw [← h.cursor]
    exact hspan hs
  refine (h.allocated (z := ⟨g.start a, g.before c⟩) (fun hs => ⟨hle hs, g.before_le_size c⟩)
    fun hs => ⟨docs, kids, hks, hdocs hs, hkids hs⟩).mono ?_
  rintro i s' hle' ⟨h', hx, d, hd, rfl⟩
  refine ⟨c, hac, h', fun hs => ?_⟩
  exact NodePool.Row.one ⟨hx, d, hd, hkind⟩ (hle (hle'.fine hs.fine))

/-- The slip together with the node whose span it inverts. -/
theorem Good.gapped (h : Good g (c + 1) s) (hdirty : ¬ s.Clean) (hx : g.before (c + 1) < x)
    {kind : NodeKind} {kids : List NodeIndex} {payload flags : ℕ} :
    Lays (Parser.slip .gappedParam >>= fun _ => Parser.previous >>= fun t =>
      Parser.alloc kind ⟨x, t.tokenSpan.end⟩ kids payload flags)
      (fun _ s' => Good g (c + 1) s' ∧ ¬ s'.Fine) s := by
  intro i s' hi
  obtain ⟨rs, hp, -, -⟩ := h.records
  have hmem : .gappedParam ∈ s.slips ++ [.gappedParam] := by simp
  have hprev := h.previous
  change Parser.alloc kind ⟨x, s.stream.previous.tokenSpan.end⟩ kids payload flags
    { s with slips := s.slips ++ [.gappedParam] } = _ at hi
  rw [alloc_records (s := { s with slips := s.slips ++ [.gappedParam] }) hp, hprev] at hi
  have hwithin := within_concat rs
    ⟨kind, ⟨x, (g.side.tokenAt c).tokenSpan.end⟩, kids, payload, flags⟩
  rw [← hp] at hwithin
  cases hi
  refine ⟨⟨le_rfl, hwithin, List.prefix_rfl, List.prefix_append _ _, fun _ _ h => h⟩,
    ⟨h.tokens, h.cursor, ⟨_, rfl, fun hs => (hdirty (hs hmem)).elim,
      fun hs => (hdirty hs).elim⟩, h.errors, fun _ => ⟨hdirty, some rs.length, _,
      spanOf?_of_record List.getElem?_concat_length, hx⟩⟩, fun hs => hdirty (hs hmem)⟩

/-! ### Parameters -/

/-- The tokens a parameter's type starts with, with the colon before it. -/
def startsParamType (k : Token.Kind) : Bool := k = .colon || startsType k

theorem startsParam_eq (k : Token.Kind) :
    startsParam k = (isRegime k || k = .identifier || startsParamType k) := by
  cases k <;> rfl

theorem isSelfParam_lays (h : Good g c s) (name : InternedStr) :
    Lays (isSelfParam name) (fun v s' => s' = s ∧ (v = true → startsParam (g.kind c) = false)) s := by
  unfold isSelfParam
  refine Lays.getText fun text => h.bindCheck _ (h.bindCheck _ (h.bindCheck _ ?_))
  refine Lays.pure ⟨rfl, fun hv => ?_⟩
  simp only [Bool.and_eq_true, Bool.or_eq_true, decide_eq_true_eq] at hv
  rcases hv.2 with hk | hk <;> rw [hk] <;> rfl

/-- The type of a parameter moves on exactly if one starts at the cursor. -/
theorem parseParamType_lays (hrec : Lay g rec) (h : Good g (c + 1) s) (name : InternedStr) :
    Lays (parseParamType rec name) (fun i s' => ∃ e, c + 1 ≤ e ∧
      (startsParamType (g.kind (c + 1)) = true → c + 1 < e) ∧
      (startsParamType (g.kind (c + 1)) = false → e = c + 1) ∧ Good g e s' ∧
      Kids s' (g.start c) (g.before e) [i]) s := by
  unfold parseParamType
  refine (isSelfParam_lays h name).bind ?_
  rintro v s₁ - ⟨rfl, hv⟩
  split_ifs with hself
  · have hno := hv hself
    rw [startsParam_eq, Bool.or_eq_false_iff] at hno
    unfold synthesiseSelf
    refine h.bindPrevious ((h.intern _).bind fun self s₂ _ h₂ => ?_)
    refine (h₂.allocToken (by decide) self).mono fun i s₃ _ ⟨h₃, hi⟩ => ?_
    refine ⟨c + 1, le_rfl, fun hyes => ?_, fun _ => rfl, h₃, hi.kids⟩
    rw [hno.2] at hyes
    cases hyes
  · by_cases hcolon : g.kind (c + 1) = .colon
    · have hyes : startsParamType (g.kind (c + 1)) = true := by rw [hcolon]; rfl
      refine (h.expectHit (by decide) hcolon _ _).bind ?_
      rintro t s₂ - ⟨-, h₂⟩
      refine (hrec.type h₂).mono fun i s₃ _ ⟨e, hce, _, _, h₃, hi⟩ => ?_
      refine ⟨e, by omega, fun _ => by omega, fun hno => ?_, h₃,
        hi.kids.from (g.start_mono (by omega))⟩
      rw [hno] at hyes
      cases hyes
    · have heq : startsParamType (g.kind (c + 1)) = startsType (g.kind (c + 1)) := by
        simp [startsParamType, hcolon]
      refine (h.expectMiss (by decide) hcolon _ _).bind ?_
      rintro t s₂ - ⟨-, h₂, -⟩
      refine (hrec.type h₂).mono fun i s₃ _ ⟨e, hce, hyes, hno, h₃, hi⟩ => ?_
      rw [heq]
      exact ⟨e, hce, hyes, hno, h₃, hi.kids.from (g.start_mono (Nat.le_succ c))⟩

theorem Good.atGap (h : Good g (c + 1) s) {f : Bool → ParserM β}
    (hf : Lays (f (!startsParam (g.kind (c + 1)) && g.before (c + 1) != g.start (c + 1))) R s) :
    Lays (Parser.atGap >>= f) R s := by
  refine Lays.read ?_ hf
  change Except.ok (!startsParam (s.stream.peekToken 0).tokenKind &&
    s.stream.previous.tokenSpan.end != (s.stream.peekToken 0).tokenSpan.start, s) = _
  rw [h.peekToken, h.previous]
  rfl

/-- A parameter that is there, or that is missing without a gap. -/
theorem Good.allocParam (h : Good g b s) (hab : a ≤ b) (ha : 0 < a) (hspan : Spans g a s)
    (hkids : Kids s (g.start a) (g.before b) [i]) {payload : ℕ} :
    Lays (Parser.previous >>= fun t =>
      Parser.alloc .Param ⟨g.start a, t.tokenSpan.end⟩ [i] payload 0)
      (fun j s' => Adds g a j s' ∧ Spans g a s') s := by
  obtain ⟨b, rfl⟩ : ∃ b', b = b' + 1 := ⟨b - 1, by omega⟩
  refine h.bindPrevious ((h.allocKid hab hspan (List.nil_append _).symm (by decide) DocKids.none
    hkids).mono fun j s' hle hj => ⟨hj, hspan.later hle⟩)

theorem parseParam_lays (hrec : Lay g rec) (h : Good g (c + 1) s) :
    Lays (parseParam rec) (fun i s' => Adds g (c + 1) i s' ∧ Spans g (c + 1) s') s := by
  unfold parseParam
  refine h.atGap (h.bindPeekToken (h.parseRegime.bind ?_))
  rintro r s₁ - ⟨b, hcb, hb, h₁⟩
  refine (h₁.expectName (by decide) _).bind ?_
  rintro name s₂ - ⟨⟨d, hbd, -, hhit, hclean, h₂⟩, hmiss⟩
  have hhead : startsParam (g.kind (c + 1)) = true ∧ c + 1 < d ∨ startsParam (g.kind (c + 1)) =
      startsParamType (g.kind (c + 1)) ∧ d = c + 1 ∧ ¬ s₂.Clean := by
    rw [startsParam_eq]
    by_cases hreg : isRegime (g.kind (c + 1)) = true
    · rw [if_pos hreg] at hb
      exact Or.inl ⟨by simp [hreg], by omega⟩
    · rw [if_neg hreg] at hb
      subst hb
      by_cases hid : g.kind (c + 1) = .identifier
      · have := hhit hid
        exact Or.inl ⟨by simp [hid], by omega⟩
      · have hdb : d = c + 1 := h₂.cursor.symm.trans (hmiss hid).cursor
        refine Or.inr ⟨by simp [hreg, hid], hdb, fun hs => ?_⟩
        have := hclean hs
        omega
  obtain ⟨d, rfl⟩ : ∃ d', d = d' + 1 := ⟨d - 1, by omega⟩
  refine (parseParamType_lays hrec h₂ name).bind ?_
  rintro type s₃ hle₃ ⟨e, hde, hyes, hno, h₃, hkids⟩
  rcases hhead with ⟨hstarts, hcd⟩ | ⟨hstarts, hdc, hdirty⟩
  · simp only [hstarts, Bool.not_true, Bool.false_and, markGap, Bool.false_eq_true, if_false]
    exact h₃.allocParam (by omega) (Nat.succ_pos c) (h₃.spans (by omega))
      (hkids.from (g.start_mono (by omega)))
  · obtain rfl : d = c := by omega
    have hdirty₃ : ¬ s₃.Clean := fun hs => hdirty (hle₃.clean hs)
    have hvoid : ∀ {x y is}, Kids s₃ x y is := fun hs => (hdirty₃ hs).elim
    rw [hstarts]
    by_cases htype : startsParamType (g.kind (d + 1)) = true
    · simp only [htype, Bool.not_true, Bool.false_and, markGap, Bool.false_eq_true, if_false]
      exact h₃.allocParam hde (Nat.succ_pos d) (h₃.spans (hyes htype)) hvoid
    · obtain rfl := hno (by simpa using htype)
      by_cases hgap : g.before (d + 1) = g.start (d + 1)
      · simp only [hgap, bne_self_eq_false, Bool.and_false, markGap, Bool.false_eq_true, if_false]
        refine h₃.allocParam le_rfl (Nat.succ_pos d) (fun _ => ?_) hvoid
        rw [h₃.cursor, hgap]
      · have hmark : markGap (!startsParamType (g.kind (d + 1)) &&
            g.before (d + 1) != g.start (d + 1)) = slip .gappedParam := by
          simp [markGap, htype, hgap]
        rw [hmark]
        refine (h₃.gapped hdirty₃ (lt_of_le_of_ne (g.before_le_start _) hgap)).mono ?_
        rintro i s₄ hle₄ ⟨h₄, hfine⟩
        exact ⟨⟨d + 1, le_rfl, h₄, fun hs => (hfine hs.fine).elim⟩, fun hs => (hfine hs).elim⟩

theorem parseParam_elements (hrec : Lay g rec) (hc : 0 < c) : Elements g c (parseParam rec) := by
  intro b s hcb h
  obtain ⟨b, rfl⟩ : ∃ b', b = b' + 1 := ⟨b - 1, by omega⟩
  exact (parseParam_lays hrec h).mono fun _ _ _ hi => hi.1

/-- Where the parameters begin the list they decide whether its span is proper. -/
theorem parseParams_lays (hrec : Lay g rec) (hc : 0 < c) (h : Good g c s)
    (hk : g.kind c ≠ .r_paren) (hx : Kids s x (g.before c) []) :
    Lays (parseParams n rec) (fun acc s' => RowTo g x c [] acc s' ∧ Spans g c s') s := by
  unfold parseParams
  refine h.bindCheck _ ?_
  rw [if_neg (by simpa using hk)]
  obtain ⟨c, rfl⟩ : ∃ c', c = c' + 1 := ⟨c - 1, by omega⟩
  refine (parseParam_lays hrec h).bind ?_
  rintro first s₁ hle₁ ⟨⟨b, hcb, h₁, hfirst⟩, hspan⟩
  have hrow₁ : RowTo g x (c + 1) [] [first] s₁ :=
    ⟨b, [first], hcb, rfl, h₁, (hx.later hle₁).push hfirst le_rfl⟩
  exact (parseMore_lays (parseParam_elements hrec hc) hrow₁).mono
    fun acc s₂ hle₂ hacc => ⟨hacc, hspan.later hle₂⟩

theorem parseParams_none (h : Good g c s) (hk : g.kind c = .r_paren) :
    Lays (parseParams n rec) (fun acc s' => acc = [] ∧ s' = s) s := by
  unfold parseParams
  refine h.bindCheck _ ?_
  rw [if_pos (by simpa using hk)]
  exact Lays.pure ⟨rfl, rfl⟩

theorem parseParamList_lays (hrec : Lay g rec) (hc : 0 < c) (h : Good g c s) :
    Lays (parseParamList n rec) (fun i s' => Adds g c i s' ∧ Spans g c s') s := by
  unfold parseParamList
  by_cases hopen : g.kind c = .l_paren
  · refine (h.expectHit (by decide) hopen _ _).bind ?_
    rintro t s₁ - ⟨ht, h₁⟩
    rw [ht]
    have hspan₁ : Spans g c s₁ := h₁.spans (Nat.lt_succ_self c)
    refine Lays.bind (Q := fun acc s' => RowTo g (g.start c) (c + 1) [] acc s' ∧ Spans g c s')
      ?_ fun children s₂ hle₂ ⟨h₂, hspan₂⟩ => ?_
    · by_cases hclose : g.kind (c + 1) = .r_paren
      · refine (parseParams_none h₁ hclose).mono ?_
        rintro acc s₂ - ⟨rfl, rfl⟩
        exact ⟨RowTo.start h₁, hspan₁⟩
      · refine (parseParams_lays hrec (Nat.succ_pos c) h₁ hclose
          (Kids.none (g.start_le_before c))).mono fun acc s₂ hle₂ hacc => ?_
        exact ⟨hacc.1, hspan₁.later hle₂⟩
    · exact (h₂.bracket le_rfl (Nat.lt_succ_self c) DocKids.none (by decide) (by decide)).mono
        fun i s₃ hle₃ hi => ⟨hi.adds, hspan₂.later hle₃⟩
  · refine (h.expectMiss (by decide) hopen _ _).bind ?_
    rintro t s₁ - ⟨ht, h₁, hdirty⟩
    rw [ht]
    have hnone : Kids s₁ (g.start c) (g.before c) [] := fun hs => (hdirty hs).elim
    by_cases hclose : g.kind c = .r_paren
    · refine (parseParams_none h₁ hclose).bind ?_
      rintro children s₂ - ⟨rfl, rfl⟩
      refine (h₁.expectHit (by decide) hclose _ _).bind ?_
      rintro t' s₃ hle₃ ⟨ht', h₃⟩
      rw [ht']
      refine (h₃.allocPath le_rfl (by decide) 0).mono fun i s₄ _ hi => ?_
      exact ⟨hi.adds, hi.spans trivial⟩
    · refine (parseParams_lays hrec hc h₁ hclose hnone).bind fun children s₂ _ ⟨h₂, hspan₂⟩ => ?_
      exact (h₂.bracketIf le_rfl le_rfl DocKids.none (by decide) (by decide)).mono
        fun i s₃ hle₃ hi => ⟨hi.adds, hspan₂.later hle₃⟩

/-! ### Functions -/

theorem reportArrow_lays (h : Good g c s) : Lays reportArrow (fun _ s' => Reaches g c s') s := by
  unfold reportArrow
  refine h.bindPeekToken (Lays.bind (h.report (g.proper_span c) fun _ hl => nomatch hl) ?_)
  rintro _ s₁ - ⟨h₁, -⟩
  refine h₁.advance.bind ?_
  rintro _ s₂ - ⟨-, b, hcb, -, -, -, h₂⟩
  exact Lays.pure ⟨b, hcb, h₂⟩

theorem parseReturnType_lays (hrec : Lay g rec) (h : RowTo g x c front acc s) :
    Lays (parseReturnType rec) (fun is s' => RowTo g x c front (acc ++ is) s') s := by
  have typed : ∀ {s'}, RowTo g x c front acc s' →
      Lays (rec .type >>= fun i => pure [i]) (fun is s' => RowTo g x c front (acc ++ is) s') s' :=
    fun h' => (h'.element hrec.types).bind fun i s₂ _ h₂ => Lays.pure h₂
  unfold parseReturnType
  refine (h.consume (by decide)).bind fun hit s₁ _ h₁ => ?_
  split_ifs
  · exact typed h₁
  · refine Lays.read rfl ?_
    split_ifs
    · exact (h₁.move fun _ _ h => reportArrow_lays h).bind fun _ s₂ _ h₂ => typed h₂
    · exact Lays.pure (by rwa [List.append_nil])

theorem parseFnBody_lays (hrec : Lay g rec) (expectBody : Bool) (h : RowTo g x c front acc s) :
    Lays (parseFnBody rec expectBody) (fun i s' => RowTo g x c front (acc ++ [i]) s') s := by
  unfold parseFnBody
  split_ifs
  · exact h.element hrec.blocks
  · refine (h.expect (by decide) _ _).bind ?_
    rintro _ s₁ - ⟨b, es, hcb, hacc, h₁, hkids⟩
    refine Lays.pure ⟨b, es ++ [NullNode], hcb, by rw [hacc, List.append_assoc], h₁, ?_⟩
    exact hkids.append (Kids.missing le_rfl)

theorem parseFnRest_lays (hrec : Lay g rec) (hc : 0 < c) (hac : a ≤ c)
    (h : RowTo g (g.start a) c docs docs s) (hdocs : DocKids s (g.start a) docs) (flags : ℕ)
    (expectBody : Bool) :
    Lays (parseFnRest n rec docs flags expectBody (g.start a)) (Adds g a) s := by
  unfold parseFnRest
  refine (h.move fun _ _ h => h.regime).bind fun regime s₁ hle₁ h₁ => ?_
  refine (h₁.move fun _ _ h => h.name (by decide) _).bind fun name s₂ hle₂ h₂ => ?_
  refine (parseGenericParams_lays hrec h₂).bind fun generics s₃ hle₃ h₃ => ?_
  obtain ⟨b, es, hcb, hacc, h₃, hkids⟩ := h₃
  refine (parseParamList_lays hrec (by omega) h₃).bind ?_
  rintro params s₄ hle₄ ⟨⟨d, hbd, h₄, hparams⟩, hspan⟩
  have hrow₄ : RowTo g (g.start a) c docs (docs ++ pushed generics ++ [params]) s₄ :=
    ⟨d, es ++ [params], hcb.trans hbd, by rw [hacc, List.append_assoc], h₄,
      (hkids.later hle₄).push hparams le_rfl⟩
  refine (parseReturnType_lays hrec hrow₄).bind fun returnType s₅ hle₅ h₅ => ?_
  refine (parseFnBody_lays hrec expectBody h₅).bind ?_
  rintro body s₆ hle₆ ⟨e, es', hce, hacc', h₆, hkids'⟩
  obtain ⟨e, rfl⟩ : ∃ e', e = e' + 1 := ⟨e - 1, by omega⟩
  have hdocs₆ : DocKids s₆ (g.start a) docs :=
    hdocs.later (hle₁.trans (hle₂.trans (hle₃.trans (hle₄.trans (hle₅.trans hle₆)))))
  refine h₆.bindPrevious (h₆.allocKid (by omega) ?_ hacc' (by decide) hdocs₆ hkids')
  exact ((hspan.later hle₅).later hle₆).from (hac.trans hcb)

theorem consumeUnsafe_lays (h : Good g c s) (flags : ℕ) :
    Lays (consumeUnsafe flags) (fun _ s' => ∃ b, c ≤ b ∧ (b = c ∨ 0 < b) ∧ Good g b s') s := by
  unfold consumeUnsafe
  refine (h.consume (by decide)).bind ?_
  rintro _ s₁ - (⟨rfl, -, h₁⟩ | ⟨rfl, -, rfl⟩)
  · exact Lays.pure ⟨c + 1, Nat.le_succ c, Or.inr (Nat.succ_pos c), h₁⟩
  · exact Lays.pure ⟨c, le_rfl, Or.inl rfl, h⟩

theorem parseFnDecl_lays (hrec : Lay g rec) (h : Good g c s) (hk : 0 < c ∨ g.kind c = .kw_fn)
    (hdocs : DocKids s (g.start c) docs) (flags : ℕ) (expectBody : Bool) :
    Lays (parseFnDecl n rec docs flags expectBody) (Adds g c) s := by
  unfold parseFnDecl
  refine h.bindPeekToken ((consumeUnsafe_lays h flags).bind ?_)
  rintro flags' s₁ hle₁ ⟨b, hcb, hb, h₁⟩
  refine (h₁.expect (by decide) _ _).bind ?_
  rintro t s₂ hle₂ ⟨-, d, hbd, -, hhit, hclean, h₂⟩
  have hd : 0 < d := by
    rcases hk with hpos | hfn
    · omega
    · rcases hb with rfl | hb
      · have := hhit hfn
        omega
      · omega
  refine parseFnRest_lays hrec hd (hcb.trans hbd) ⟨d, [], le_rfl, (List.append_nil _).symm, h₂,
    fun hs => ?_⟩ ((hdocs.later hle₁).later hle₂) flags' expectBody
  have := hclean hs
  exact g.start_le_before_of_lt (by omega)

end Eter.Parser
