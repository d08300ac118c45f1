import Eter.WordingSteps

/-!
# Words in types, patterns, and paths

What recursive calls are assumed to do, and the productions without operators.
-/

namespace Eter.Parser
open NodePool Stateful Diag

variable {α : Type} {st : TokenStream} {s t : PState} {n N i j k : ℕ} {x : NodeIndex} {a : ℕ}

/-! ### Recursive calls -/

/-- The node starts at a token behind `i`, and only opening parentheses stand between, unless an
error node starts there. -/
def Fronts (st : TokenStream) (i : ℕ) (x : NodeIndex) (t : PState) : Prop :=
  ∃ j y, i ≤ j ∧ t.pool.spanOf? x = some y ∧ y.start = st.startAt j ∧
    ((∀ k, i ≤ k → k < j → st.kindAt k = .l_paren) ∨ t.pool.ErrorAt (st.startAt j))

theorem Fronts.at (h : ∃ y, t.pool.spanOf? x = some y ∧ y.start = st.startAt i) :
    Fronts st i x t := by
  obtain ⟨y, hy, hstart⟩ := h
  exact ⟨i, y, le_rfl, hy, hstart, .inl fun k hk hk' => absurd (hk.trans_lt hk') (lt_irrefl _)⟩

theorem Fronts.later (h : Fronts st i x s) (hst : s.Retains t) : Fronts st i x t := by
  obtain ⟨j, y, hij, hy, hstart, hbetween⟩ := h
  exact ⟨j, y, hij, hst.spanOf? hy, hstart, hbetween.imp id fun herr => herr.later hst⟩

/-- Behind a parenthesis. -/
theorem Fronts.bracketed (h : Fronts st (i + 1) x t) (hk : st.kindAt i = .l_paren) :
    Fronts st i x t := by
  obtain ⟨j, y, hij, hy, hstart, hbetween⟩ := h
  refine ⟨j, y, by omega, hy, hstart, hbetween.imp (fun h k hk' hkj => ?_) id⟩
  rcases Nat.eq_or_lt_of_le hk' with rfl | hlt
  · exact hk
  · exact h k hlt hkj

/-- A node that starts where another one does. -/
theorem Fronts.same {x' : NodeIndex} {y : Span} (h : Fronts st i x s) (hst : s.Retains t)
    (hx : s.pool.spanOf? x = some y) (h' : ∃ z, t.pool.spanOf? x' = some z ∧ z.start = y.start) :
    Fronts st i x' t := by
  obtain ⟨j, y', hij, hy, hstart, hbetween⟩ := h
  obtain ⟨z, hz, hsame⟩ := h'
  obtain rfl : y = y' := by
    rw [hx] at hy
    exact Option.some.inj hy
  exact ⟨j, z, hij, hz, hsame.trans hstart, hbetween.imp id fun herr => herr.later hst⟩

/-- Calls for a whole expression, of which the operators have binding powers. -/
def Call.Operand : Call → Prop
  | .expr minBP => 0 ≤ minBP
  | .block | .ifExpr => True
  | _ => False

/-- Calls that the parser makes. -/
def Call.Fair : Call → Prop
  | .expr minBP => 0 ≤ minBP
  | _ => True

/-- The calls keep the payloads, and operands start where they are called. -/
class Tellers (st : TokenStream) (N : ℕ) : Prop where
  call : ∀ c : Call, c.Fair → Tells st (run N c)
  fronts : ∀ c : Call, c.Operand → ∀ i s, Faithful st i s →
    Upholds st (run N c) (fun x _ t => Fronts st i x t) s

section Calls

variable [h : Tellers st N]

instance : Tells st (run N .type) := h.call .type trivial
instance : Tells st (run N .pat) := h.call .pat trivial
instance : Tells st (run N .stmt) := h.call .stmt trivial
instance : Tells st (run N .block) := h.call .block trivial
instance : Tells st (run N .ifExpr) := h.call .ifExpr trivial
instance : Tells st (run N .topLevelDecl) := h.call .topLevelDecl trivial
instance : Tells st (run N (.expr 0)) := h.call (.expr 0) (le_refl (0 : ℤ))

end Calls

/-! ### Paths -/

/-- The path from token `i` to the end of the token before `j`. -/
def Along (st : TokenStream) (i j : ℕ) (x : Span) : Prop :=
  st.Paved i j ∧ x = ⟨st.startAt i, st.endAt (j - 1)⟩

theorem Faithful.redundant (h : Faithful st j s) (hij : st.Paved i j) :
    Upholds st (skipRedundantSeparators n) (fun _ k _ => st.Paved i k) s := by
  refine Upholds.iterate (I := fun _ k _ => st.Paved i k) (fun _ j s h hij => ?_) n h hij
  unfold redundantTurn
  refine h.check ?_
  split_ifs with hk
  · have hk : st.kindAt j = .colon_colon := of_decide_eq_true hk
    refine h.peekToken (h.report fun t ht hst => ht.advance (by rw [hk]; decide) fun u hu htu => ?_)
    exact Upholds.pure hu (hij.next (.inr hk))
  · exact Upholds.pure h hij

theorem Faithful.segments {x : Span} (h : Faithful st j s) (hx : Along st i j x) :
    Upholds st (parsePathSegments n x) (fun p k _ => Along st i k p.2) s := by
  refine Upholds.iterate (I := fun p k _ => Along st i k p.2) (fun p j s h hp => ?_) n h hx
  unfold segmentTurn
  refine h.check ?_
  split_ifs with hk
  · have hk : st.kindAt j = .colon_colon := of_decide_eq_true hk
    refine h.advance (by rw [hk]; decide) fun t ht _ => ?_
    refine (ht.redundant (hp.1.next (.inr hk))).bind fun _ l u hu _ hpaved => ?_
    refine hu.expect (by decide) fun _ v _ hv _ => hv.previous fun tok htok => ?_
    refine Upholds.pure hv ⟨?_, ?_⟩
    · unfold TokenStream.past
      split_ifs with hl
      · exact hpaved.next (.inl hl)
      · exact hpaved
    · rw [htok, hp.2]
      rfl
  · exact Upholds.pure h hp

instance : Tells st (skipRedundantSeparators n) := by
  unfold skipRedundantSeparators redundantTurn
  infer_instance

instance (x : Span) : Tells st (parsePathSegments n x) := by
  unfold parsePathSegments segmentTurn
  infer_instance

/-! ### Docs and types -/

instance : Plain .TupleType := ⟨rfl⟩
instance : Plain .ArrayType := ⟨rfl⟩
instance : Plain .TensorType := ⟨rfl⟩
instance : Plain .WildcardPat := ⟨rfl⟩
instance : Plain .GenericParamList := ⟨rfl⟩

/-- Kinds of nodes that store the identifier of their text. -/
class Sliced (kind : NodeKind) : Prop where
  slice : isSlice kind = true
  name : encodingOf kind = .name

instance : Sliced .NamedType := ⟨rfl, rfl⟩
instance : Sliced .LiteralPat := ⟨rfl, rfl⟩
instance : Sliced .DocComment := ⟨rfl, rfl⟩
instance : Sliced .FileDocComment := ⟨rfl, rfl⟩
instance : Sliced .IdentExpr := ⟨rfl, rfl⟩

theorem Faithful.sliced {kind : NodeKind} [hkind : Sliced kind] {x : Span} {id : InternedStr}
    (h : Faithful st i s) (hid : s.interner.get? id = some (st.textOf x)) :
    Upholds st (allocLeaf kind x id) (fun v j t => j = i ∧ t.pool.spanOf? v = some x) s :=
  h.slice hkind.slice (by rw [hkind.name]; exact hid)

instance (kind : NodeKind) [Sliced kind] (x : Span) :
    Tells st (internText x >>= fun id => allocLeaf kind x id) :=
  ⟨fun _ _ h => h.internText fun _ _ ht _ hid => (ht.sliced hid).told⟩

instance (word : Token.Kind) (kind : NodeKind) [Sliced kind] :
    Tells st (parseDocs n word kind) := by
  unfold parseDocs docTurn
  have hdoc : ∀ (tok : Token) (out : List NodeIndex), Tells st (do
      let text ← internText tok.tokenSpan
      let doc ← allocLeaf kind tok.tokenSpan text
      pure (Turn.again (γ := List NodeIndex) (out ++ [doc]))) := fun tok out =>
    ⟨fun _ _ h => h.internText fun _ _ ht _ hid => (ht.sliced hid).bind fun _ _ _ hu _ _ =>
      Upholds.pure hu trivial⟩
  infer_instance

instance : Tells st (parseDocComments n) := by
  unfold parseDocComments
  infer_instance

instance : Tells st (parseFileDocComments n) := by
  unfold parseFileDocComments
  infer_instance

instance (b : Bool) : Tells st (requireDim b) := by
  unfold requireDim
  infer_instance

instance : Tells st (parseNamedType n) := by
  unfold parseNamedType
  infer_instance

section Productions

set_option synthInstance.maxSize 1000

variable [Tellers st N]

instance : Tells st (parseConstExpr (run N)) := by
  unfold parseConstExpr
  infer_instance

instance : Tells st (parseTupleType n (run N)) := by
  unfold parseTupleType
  infer_instance

instance : Tells st (parseArrayType (run N)) := by
  unfold parseArrayType
  infer_instance

instance : Tells st (parseTensorType n (run N)) := by
  unfold parseTensorType
  infer_instance

instance : Tells st (parseType n (run N)) := by
  unfold parseType
  infer_instance

/-! ### Generic parameters -/

instance : Tells st (parseBound (run N)) := by
  unfold parseBound
  infer_instance

instance : Tells st (parseGenericParam (run N)) where
  upholds i s h := by
    unfold parseGenericParam
    refine h.peekToken (h.check ?_)
    split_ifs with hk
    · exact Faithful.told h
    · have hk : st.kindAt i = .identifier := by simpa using hk
      refine h.advance (by rw [hk]; decide) fun t ht _ => ht.internText fun id u hu _ hid => ?_
      exact (hu.named rfl hid fun _ _ _ => .first (by simp) rfl).told

instance : Tells st (parseGenericParams n (run N)) := by
  unfold parseGenericParams parseGenericList
  infer_instance

/-! ### Patterns -/

instance : Tells st (parseFieldPat (run N)) where
  upholds i s h := by
    unfold parseFieldPat
    refine h.check ?_
    split_ifs with hk
    · exact Faithful.told h
    · have hk : st.kindAt i = .identifier := by simpa using hk
      refine h.advance (by rw [hk]; decide) fun t ht _ => ht.internText fun id u hu _ hid => ?_
      refine hu.consume (by decide) fun v hv huv => ?_
      have hid := huv.names _ _ hid
      split_ifs
      · exact (hv.named rfl hid fun _ _ _ => .first (by simp) rfl).told
      · exact (hv.named rfl hid fun _ _ _ => .first (by simp) rfl).told

theorem Faithful.structPat (h : Faithful st j s) {id : InternedStr} {y : Span} (hy : Along st i j y)
    (hid : s.interner.get? id = some (st.textOf y)) (hk : st.kindAt j = .l_brace) :
    Upholds st (parseStructPat n (run N) id y) (fun _ _ _ => True) s := by
  obtain ⟨hpaved, rfl⟩ := hy
  unfold parseStructPat
  refine (h.named rfl hid fun _ _ _ => ?_).told
  exact .path rfl hpaved rfl hk

theorem Faithful.variantPat (h : Faithful st j s) {id : InternedStr} {y : Span}
    (hy : Along st i j y) (hid : s.interner.get? id = some (st.textOf y)) (hk : st.kindAt j = .l_paren) :
    Upholds st (parseTuplePat n (run N) id y) (fun _ _ _ => True) s := by
  obtain ⟨hpaved, rfl⟩ := hy
  unfold parseTuplePat
  refine (h.named rfl hid fun _ _ _ => ?_).told
  exact .path rfl hpaved rfl hk

theorem Faithful.namePat (h : Faithful st i s) (hk : st.kindAt i = .identifier) :
    Upholds st (parseNamePat n (run N) (st.tokenAt i)) (fun _ _ _ => True) s := by
  unfold parseNamePat
  refine h.textOf ?_
  split_ifs
  · exact Faithful.told h
  · refine h.advance (by rw [hk]; decide) fun t ht _ => ?_
    refine (ht.segments ⟨.one hk, rfl⟩).bind fun p j u hu _ hp => ?_
    refine hu.internText fun id v hv _ hid => hv.check ?_
    split_ifs with hparen
    · exact hv.variantPat hp hid (of_decide_eq_true hparen)
    · refine hv.check ?_
      split_ifs with hbrace
      · exact hv.structPat hp hid (of_decide_eq_true hbrace)
      · have hname : Follows v.interner (makePayload id .None) (some (st.textOf p.2))
            Regime.None.value .packed := ⟨id, .None, hid, rfl, rfl⟩
        exact (hv.slice rfl hname).told

instance (tok : Token) : Tells st (parseLiteralPat tok) := by
  unfold parseLiteralPat
  infer_instance

instance (tok : Token) : Tells st (parseBadPat tok) := by
  unfold parseBadPat
  infer_instance

instance : Tells st (parsePat n (run N)) where
  upholds i s h := by
    unfold parsePat
    refine h.peekToken ?_
    split_ifs with hname hparen
    · exact h.namePat ((tokenAt_kind st i).symm.trans hname)
    · unfold parseTuplePat
      exact (h.holds (show Follows _ _ none 0 .name from rfl) fun _ _ _ => .tuplePat rfl
        ((tokenAt_kind st i).symm.trans hparen)).told
    · exact Faithful.told h
    · exact Faithful.told h

end Productions

end Eter.Parser
