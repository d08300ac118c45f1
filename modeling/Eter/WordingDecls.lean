import Eter.WordingStmts

/-!
# Words in declarations
-/

namespace Eter.Parser
open NodePool Stateful Diag

set_option synthInstance.maxSize 1000

variable {st : TokenStream} {s t : PState} {n N i j : ℕ} {id : InternedStr} {text : Bytes}

instance : Tells st reportArrow := by
  unfold reportArrow
  infer_instance

instance : Tells st parseStructField.fieldColon := by
  unfold parseStructField.fieldColon
  infer_instance

instance (k : ℕ) : Tells st (resyncMethod k) := by
  unfold resyncMethod
  infer_instance

instance (docs : List NodeIndex) (x : Span) : Tells st (rejectDocs docs x) := by
  unfold rejectDocs
  infer_instance

instance (docs : List NodeIndex) : Tells st (parseBadDecl docs) := by
  unfold parseBadDecl
  infer_instance

section Productions

variable [Tellers st N]

/-! ### Functions -/

/-- The type of a `self` parameter is named after no token. -/
theorem Faithful.selfType (h : Faithful st i s) (hself : st.textAt j = ascii "self")
    (hj : j = i - 1 ∨ j = i - 1 + 1) : Upholds st synthesiseSelf (fun _ _ _ => True) s := by
  unfold synthesiseSelf
  refine h.previous fun tok htok => h.intern fun id t ht _ hid => ?_
  refine (ht.stored ⟨some (ascii "Self"), 0, .self (i := i - 1) htok hself hj, fun _ => ?_⟩).told
  exact hid

theorem Faithful.paramType (h : Faithful st (st.past i .identifier) s)
    (hid : s.interner.get? id = some (st.textAt i)) :
    Upholds st (parseParamType (run N) id) (fun _ _ _ => True) s := by
  unfold parseParamType isSelfParam
  have hself : getText id s = .ok (st.textAt i, s) := by
    unfold getText
    rw [hid]
  simp only [bind_assoc, pure_bind]
  refine Upholds.read hself (h.check (h.check (h.check ?_)))
  split_ifs with hname
  · have hname : st.textAt i = ascii "self" := by
      simp only [Bool.and_eq_true, beq_iff_eq] at hname
      exact hname.1.1
    refine h.selfType hname ?_
    unfold TokenStream.past
    split_ifs <;> omega
  · exact Faithful.told h

theorem Faithful.gap {α : Type} {f : Bool → ParserM α} {R : α → ℕ → PState → Prop}
    (h : Faithful st i s)
    (hf : ∀ gap, (gap = true → Slip.gappedParam.Shown st) → Upholds st (f gap) R s) :
    Upholds st (atGap >>= f) R s := by
  unfold atGap
  simp only [bind_assoc, pure_bind]
  refine h.peekToken (h.previous fun tok htok => hf _ fun hgap => ⟨i, ?_⟩)
  rw [htok, tokenAt_kind] at hgap
  simpa [TokenStream.endAt, TokenStream.startAt] using hgap

theorem Faithful.markGap {α : Type} {f : Unit → ParserM α} {R : α → ℕ → PState → Prop} {gap : Bool}
    (h : Faithful st i s) (hgap : gap = true → Slip.gappedParam.Shown st)
    (hf : ∀ t, Faithful st i t → s.Retains t → Upholds st (f ()) R t) :
    Upholds st (Parser.markGap gap >>= f) R s := by
  unfold Parser.markGap
  split_ifs with hg
  · exact h.slip (hgap hg) hf
  · rw [pure_bind]
    exact hf s h (retains_grow.refl s)

instance : Tells st (parseParam (run N)) where
  upholds i s h := by
    unfold parseParam
    refine h.gap fun gap hgap => h.peekToken (h.parseRegime fun u hu _ => ?_)
    refine hu.expectName fun id v hv _ hid => (hv.paramType hid).bind fun type _ w hw hvw _ => ?_
    refine hw.markGap hgap fun z hz hwz => ?_
    have hid := hwz.names _ _ (hvw.names _ _ hid)
    exact (hz.packed rfl hid fun _ _ _ => .marked (.inl rfl) rfl).told

instance : Tells st (parseParamList n (run N)) := by
  unfold parseParamList parseParams
  infer_instance

instance : Tells st (parseReturnType (run N)) := by
  unfold parseReturnType
  infer_instance

instance (expectBody : Bool) : Tells st (parseFnBody (run N) expectBody) := by
  unfold parseFnBody
  infer_instance

theorem Faithful.consumeUnsafe {α : Type} {f : ℕ → ParserM α} {R : α → ℕ → PState → Prop}
    {flags : ℕ} (h : Faithful st i s)
    (hf : ∀ flags t, Faithful st (st.past i .kw_unsafe_) t → s.Retains t →
      Upholds st (f flags) R t) :
    Upholds st (Parser.consumeUnsafe flags >>= f) R s := by
  unfold Parser.consumeUnsafe
  rw [bind_assoc]
  refine h.consume (by decide) fun t ht hst => ?_
  split_ifs
  · rw [pure_bind]
    exact hf _ t ht hst
  · rw [pure_bind]
    exact hf _ t ht hst

instance (docs : List NodeIndex) (flags : ℕ) (expectBody : Bool) :
    Tells st (parseFnDecl n (run N) docs flags expectBody) where
  upholds i s h := by
    unfold parseFnDecl parseFnRest
    refine h.peekToken (h.consumeUnsafe fun flags t ht _ => ?_)
    refine ht.expect (by decide) fun tok u _ hu _ => hu.parseRegime fun v hv _ => ?_
    refine hv.expectName fun id w hw _ hid => (hw.packed rfl hid fun _ _ _ => ?_).told
    exact .fn rfl rfl

/-! ### Structures, enumerations, and unions -/

instance : Tells st (parseStructField (run N)) where
  upholds i s h := by
    unfold parseStructField
    refine h.peekToken (h.parseRegime fun t ht _ => ht.check ?_)
    split_ifs with hk
    · exact Faithful.told ht
    · have hk : st.kindAt (st.pastRegime i) = .identifier := by simpa using hk
      refine ht.advance (by rw [hk]; decide) fun u hu _ => hu.internText fun id v hv _ hid => ?_
      refine hv.tell fun c _ w hw hvw => ?_
      split_ifs
      · exact (hw.packed rfl (hvw.names _ _ hid) fun _ _ _ => .marked (.inr rfl) rfl).told
      · exact Faithful.told hw

instance : Tells st (parseEnumVariant n (run N)) where
  upholds i s h := by
    unfold parseEnumVariant parseTupleVariant parseStructVariant
    refine h.peekToken (h.check ?_)
    split_ifs with hk
    · exact Faithful.told h
    · have hk : st.kindAt i = .identifier := by simpa using hk
      refine h.advance (by rw [hk]; decide) fun t ht _ => ht.internText fun id u hu _ hid => ?_
      refine hu.tell fun paren _ v hv huv => ?_
      have hid := huv.names _ _ hid
      split
      · exact (hv.packed rfl hid fun _ _ _ => .variant (by simp) rfl).told
      · refine hv.tell fun brace _ w hw hvw => ?_
        have hid := hvw.names _ _ hid
        split
        · exact (hw.packed rfl hid fun _ _ _ => .variant (by simp) rfl).told
        · refine hw.tell fun eq _ z hz hwz => ?_
          have hid := hwz.names _ _ hid
          split
          · exact (hz.packed rfl hid fun _ _ _ => .variant (by simp) rfl).told
          · exact (hz.packed rfl hid fun _ _ _ => .variant (by simp) rfl).told

theorem bodyDecl_tells {kind : NodeKind} {word : Token.Kind} (construct : String)
    {el : ParserM NodeIndex} (docs : List NodeIndex) (flags : ℕ) [Tells st el]
    (hword : keywordOf kind = some word) (hname : encodingOf kind = .name) (hne : word ≠ .eof) :
    Tells st (parseBodyDecl word kind construct n (run N) el docs flags) where
  upholds i s h := by
    unfold parseBodyDecl
    refine h.expect hne fun tok t htok ht _ => ht.expectName fun id u hu _ hid => ?_
    rw [htok]
    exact (hu.named hname hid fun _ _ _ => .named rfl hword).told

instance (docs : List NodeIndex) (flags : ℕ) : Tells st (parseStructDecl n (run N) docs flags) :=
  bodyDecl_tells "struct" docs flags rfl rfl (by decide)

instance (docs : List NodeIndex) (flags : ℕ) : Tells st (parseEnumDecl n (run N) docs flags) :=
  bodyDecl_tells "enum" docs flags rfl rfl (by decide)

instance (docs : List NodeIndex) (flags : ℕ) : Tells st (parseUnionDecl n (run N) docs flags) :=
  bodyDecl_tells "union" docs flags rfl rfl (by decide)

/-! ### Modules, uses, and constants -/

instance (docs : List NodeIndex) (flags : ℕ) : Tells st (parseModDecl n (run N) docs flags) where
  upholds i s h := by
    unfold parseModDecl parseModBody
    refine h.expect (by decide) fun tok t htok ht _ => ht.expectName fun id u hu _ hid => ?_
    rw [htok]
    refine hu.tell fun brace _ v hv huv => ?_
    have hid := huv.names _ _ hid
    split
    · exact (hv.named rfl hid fun _ _ _ => .named rfl rfl).told
    · refine hv.tell fun semi _ w hw hvw => ?_
      have hid := hvw.names _ _ hid
      split
      · exact (hw.named rfl hid fun _ _ _ => .named rfl rfl).told
      · exact Faithful.told hw

instance (docs : List NodeIndex) (flags : ℕ) : Tells st (parseConstDecl (run N) docs flags) where
  upholds i s h := by
    unfold parseConstDecl
    refine h.expect (by decide) fun tok t htok ht _ => ht.expectName fun id u hu _ hid => ?_
    rw [htok]
    exact (hu.named rfl hid fun _ _ _ => .named rfl rfl).told

/-- Paths grow at their ends. -/
theorem Faithful.usePath {x : Span} (h : Faithful st i s) :
    Upholds st (iterate usePathTurn n x) (fun y _ _ => y.start = x.start) s := by
  refine Upholds.iterate (I := fun y _ _ => y.start = x.start) (fun y i s h hy => ?_) n h rfl
  unfold usePathTurn
  refine h.tell fun sep _ t ht _ => ?_
  split
  · exact Upholds.pure ht hy
  · refine ht.tell fun k _ u hu _ => ?_
    split
    · exact Upholds.pure hu hy
    · refine hu.tell fun k' _ v hv _ => ?_
      split
      · exact Upholds.pure hv hy
      · exact hv.tell fun _ _ w hw _ => hw.tell fun _ _ z hz _ => hz.tell fun _ _ z' hz' _ =>
          Upholds.pure hz' hy

/-- The full path ends where the tail does. -/
theorem Faithful.useTail {x : Span} (h : Faithful st i s)
    (hid : s.interner.get? id = some (st.textOf x)) :
    Upholds st (parseUseTail x id)
      (fun r _ t => t.interner.get? r.2 = some (st.textOf ⟨x.start, r.1.end⟩)) s := by
  unfold parseUseTail
  refine h.tell fun sep _ t ht hst => ?_
  split
  · refine ht.tell fun _ _ u hu htu => hu.tell fun star _ v hv huv => ?_
    split
    · exact hv.tell fun endTok _ w hw _ => hw.internText fun full z hz _ hfull =>
        Upholds.pure hz hfull
    · exact hv.tell fun _ _ w hw hvw => hw.tell fun _ _ z hz hwz =>
        Upholds.pure hz ((hst.trans (htu.trans (huv.trans (hvw.trans hwz)))).names _ _ hid)
  · refine ht.tell fun renamed _ u hu htu => ?_
    split
    · exact hu.tell fun _ _ v hv _ => hv.tell fun endTok _ w hw _ =>
        hw.internText fun full z hz _ hfull => Upholds.pure hz hfull
    · exact Upholds.pure hu ((hst.trans htu).names _ _ hid)

instance (docs : List NodeIndex) (flags : ℕ) : Tells st (parseUseDecl n docs flags) where
  upholds i s h := by
    unfold parseUseDecl
    refine h.expect (by decide) fun tok t htok ht _ => ht.expect (by decide) fun _ u _ hu _ => ?_
    rw [htok]
    refine hu.previous fun tok' htok' => hu.usePath.bind fun x _ v hv _ hx => ?_
    refine hv.internText fun full w hw _ hfull => (hw.useTail hfull).bind fun r _ z hz _ hr => ?_
    refine hz.tell fun _ _ z' hz' hzz' => ?_
    rw [hx, htok'] at hr
    have hworded : Worded st z'.pool z'.interner
        ⟨.UseDecl, ⟨st.startAt i, r.1.end⟩, docs, r.2, flags⟩ :=
      ⟨_, 0, .use rfl rfl, fun _ => hzz'.names _ _ hr⟩
    exact (hz'.stored hworded).told

/-! ### Traits and implementations -/

instance (expectBody : Bool) (xs : List NodeIndex) :
    Tells st (methodTurn n (run N) expectBody xs) := by
  unfold methodTurn
  infer_instance

instance (docs : List NodeIndex) (flags : ℕ) : Tells st (parseTraitDecl n (run N) docs flags) where
  upholds i s h := by
    unfold parseTraitDecl
    refine h.expect (by decide) fun tok t htok ht _ => ht.expectName fun id u hu _ hid => ?_
    rw [htok]
    exact (hu.named rfl hid fun _ _ _ => .named rfl rfl).told

instance : Tells st (parseImplTypes (run N)) := by
  unfold parseImplTypes
  infer_instance

instance (docs : List NodeIndex) (flags : ℕ) : Tells st (parseImplDecl n (run N) docs flags) := by
  unfold parseImplDecl
  infer_instance

/-! ### The top level -/

instance : Tells st consumePub := by
  unfold consumePub
  infer_instance

instance (docs : List NodeIndex) (flags : ℕ) : Tells st (parseUnsafeDecl n (run N) docs flags) := by
  unfold parseUnsafeDecl
  infer_instance

instance (docs : List NodeIndex) (flags : ℕ) : Tells st (parseDecl n (run N) docs flags) := by
  unfold parseDecl
  refine @Tells.bind _ _ _ _ _ _ fun k => ?_
  split <;> infer_instance

instance : Tells st (parseTopLevelDecl n (run N)) := by
  unfold parseTopLevelDecl
  infer_instance

end Productions

/-! ### The recursion -/

theorem fronts_step [Tellers st N] {c : Call} (hc : c.Operand) (h : Faithful st i s) :
    Upholds st (run (N + 1) c) (fun x _ t => Fronts st i x t) s := by
  cases c with
  | expr minBP => exact h.expr hc
  | block => exact h.blockExpr
  | ifExpr => exact h.ifExpr
  | type | pat | stmt | topLevelDecl => exact hc.elim

theorem tells_step [Tellers st N] {c : Call} (hc : c.Fair) : Tells st (run (N + 1) c) := by
  cases c with
  | expr minBP => exact ⟨fun i s h => (fronts_step (c := .expr minBP) hc h).told⟩
  | type => exact inferInstanceAs (Tells st (parseType N (run N)))
  | pat => exact inferInstanceAs (Tells st (parsePat N (run N)))
  | stmt => exact inferInstanceAs (Tells st (parseStmt N (run N)))
  | block => exact ⟨fun i s h => (fronts_step (c := .block) hc h).told⟩
  | ifExpr => exact ⟨fun i s h => (fronts_step (c := .ifExpr) hc h).told⟩
  | topLevelDecl => exact inferInstanceAs (Tells st (parseTopLevelDecl N (run N)))

instance tellers (N : ℕ) : Tellers st N := by
  induction N with
  | zero =>
    have hstuck : ∀ c : Call, ∀ s a t, run 0 c s ≠ .ok (a, t) := fun c s a t h => nomatch h
    exact ⟨fun c _ => ⟨fun i s _ a t hm => absurd hm (hstuck c s a t)⟩,
      fun c _ i s _ a t hm => absurd hm (hstuck c s a t)⟩
  | succ N ih => exact ⟨fun c hc => tells_step hc, fun c hc i s h => fronts_step hc h⟩

instance : Tells st (parseSourceFile n) := by
  unfold parseSourceFile sourceTurn
  infer_instance

/-! ### Whole runs -/

variable {interner : StringInterner} {r : ParseResult}

theorem initialState_faithful (st : TokenStream) (interner : StringInterner) :
    Faithful st st.cursor (initialState st interner) :=
  ⟨rfl, rfl, rfl, (fun _ h => nomatch h), [], poolOf_sentinel.symm, fun _ h => nomatch h⟩

theorem parse_faithful (hp : parse n st interner = .ok (r, s)) :
    Faithful st s.stream.cursor s ∧ r.pool = s.pool := by
  unfold parse at hp
  cases hrun : parseSourceFile n (initialState st interner) with
  | error e =>
    rw [hrun] at hp
    cases hp
  | ok p =>
    rw [hrun] at hp
    cases hp
    obtain ⟨-, ht, -⟩ := Tells.upholds _ _ (initialState_faithful st interner) p.1 p.2 hrun
    exact ⟨ht, rfl⟩

/-- Where every `unsafe` stands before a brace, no run comes by a bare one. -/
theorem no_bareUnsafe (hp : parse n st interner = .ok (r, s))
    (h : ∀ i, st.kindAt i = .kw_unsafe_ → st.kindAt (i + 1) = .l_brace) :
    .bareUnsafe ∉ s.slips := by
  intro he
  obtain ⟨i, hk, hne⟩ := (parse_faithful hp).1.slips _ he
  exact hne (h i hk)

/-- Where only tokens that start a parameter stand behind gaps, no run comes by a gapped one. -/
theorem no_gappedParam (hp : parse n st interner = .ok (r, s))
    (h : ∀ i, startsParam (st.kindAt i) = false → st.endAt (i - 1) = st.startAt i) :
    .gappedParam ∉ s.slips := by
  intro he
  obtain ⟨i, hk, hne⟩ := (parse_faithful hp).1.slips _ he
  exact hne (h i hk)

end Eter.Parser
