import Eter.WordingTypes

/-!
# Words in expressions

The operator of a binary expression stands before what its right operand starts with, so every
operand is followed from where it is called to its first token.
-/

namespace Eter.Parser
open NodePool Stateful Diag

set_option synthInstance.maxSize 1000

variable {α : Type} {st : TokenStream} {s t : PState} {n N i j k : ℕ} {x lhs : NodeIndex} {a : ℕ}
  {kind : NodeKind} {mx : ParserM NodeIndex}

instance : Plain .ArgList := ⟨rfl⟩
instance : Plain .CallExpr := ⟨rfl⟩
instance : Plain .CastExpr := ⟨rfl⟩
instance : Plain .PropagateExpr := ⟨rfl⟩
instance : Plain .ProjAssignExpr := ⟨rfl⟩
instance : Plain .TupleExpr := ⟨rfl⟩
instance : Plain .ArrayLitExpr := ⟨rfl⟩
instance : Plain .ArrayRepeatExpr := ⟨rfl⟩
instance : Plain .IfExpr := ⟨rfl⟩
instance : Plain .MatchExpr := ⟨rfl⟩
instance : Plain .MatchArm := ⟨rfl⟩
instance : Plain .WhileStmt := ⟨rfl⟩
instance : Plain .BlockExpr := ⟨rfl⟩
instance : Plain .UnsafeBlock := ⟨rfl⟩

instance (b : Bool) : Plain (if b then .TensorIndexExpr else .IndexExpr) := by
  cases b <;> exact ⟨rfl⟩

instance (b : Bool) : Sliced (if b then .PathExpr else .IdentExpr) := by
  cases b <;> exact ⟨rfl, rfl⟩

/-! ### Where operands start -/

/-- A node without payload that starts at the token. -/
theorem Faithful.starts [Stores st mx kind (st.startAt i) 0] [Plain kind] (h : Faithful st j s) :
    Upholds st mx (fun x _ t => Fronts st i x t) s :=
  h.plain.mono fun _ _ _ _ _ hx => .at hx

/-- A node without payload that starts where another one does. -/
theorem Faithful.extends {y : Span} [Stores st mx kind y.start 0] [Plain kind] (h : Faithful st j s)
    (ho : Fronts st i lhs s) (hy : s.pool.spanOf? lhs = some y) :
    Upholds st mx (fun x _ t => Fronts st i x t) s :=
  h.plain.mono fun _ _ _ _ hst hx => ho.same hst hy hx

theorem Faithful.litExpr (h : Faithful st j s) :
    Upholds st (parseLitExpr (st.tokenAt i)) (fun x _ t => Fronts st i x t) s := by
  unfold parseLitExpr
  refine h.internText fun id t ht _ hid => ?_
  have hname : Follows t.interner (makePayload id .None) (some (st.textAt i)) Regime.None.value
      .packedNone := ⟨id, hid, rfl⟩
  exact (ht.slice rfl hname).mono fun _ _ _ _ _ hx => .at ⟨_, hx.2, rfl⟩

theorem Faithful.badExpr (h : Faithful st j s) :
    Upholds st (parseBadExpr (st.tokenAt i)) (fun x _ t => Fronts st i x t) s := by
  have hmake : Stores st (makeErrorNode (st.tokenAt i).tokenSpan) .Error (st.startAt i) 0 := by
    unfold makeErrorNode TokenStream.startAt
    infer_instance
  unfold parseBadExpr
  exact h.starts

section Productions

variable [Tellers st N]

/-! ### Names -/

instance : Tells st (parseFieldInit (run N)) where
  upholds i s h := by
    unfold parseFieldInit
    refine h.check ?_
    split_ifs with hk
    · exact Faithful.told h
    · have hk : st.kindAt i = .identifier := by simpa using hk
      refine h.advance (by rw [hk]; decide) fun t ht _ => ht.internText fun id u hu _ hid => ?_
      refine hu.consume (by decide) fun v hv huv => ?_
      have hid := huv.names _ _ hid
      split_ifs
      · exact (hv.named rfl hid fun _ _ _ => .first (by simp) rfl).told
      · refine (hv.sliced hid).bind fun _ _ w hw hvw _ => ?_
        exact (hw.named rfl (hvw.names _ _ hid) fun _ _ _ => .first (by simp) rfl).told

theorem Faithful.structLit {y : Span} (h : Faithful st j s) {id : InternedStr} (hy : Along st i j y)
    (hid : s.interner.get? id = some (st.textOf y)) (hk : st.kindAt j = .l_brace) :
    Upholds st (parseStructLitExpr n (run N) id y) (fun x _ t => Fronts st i x t) s := by
  obtain ⟨hpaved, rfl⟩ := hy
  unfold parseStructLitExpr
  refine (h.named rfl hid fun _ _ _ => ?_).mono fun _ _ _ _ _ hx => .at hx
  exact .path rfl hpaved rfl hk

theorem Faithful.nameExpr (h : Faithful st i s) (hk : st.kindAt i = .identifier) :
    Upholds st (parseNameExpr n (run N) (st.tokenAt i)) (fun x _ t => Fronts st i x t) s := by
  unfold parseNameExpr
  refine h.advance (by rw [hk]; decide) fun t ht _ => ?_
  refine (ht.segments ⟨.one hk, rfl⟩).bind fun p j u hu _ hp => ?_
  refine hu.internText fun id v hv _ hid => Upholds.read rfl (hv.check ?_)
  split
  · next hbrace =>
    rw [Bool.and_eq_true, decide_eq_true_eq] at hbrace
    exact hv.structLit hp hid hbrace.2
  · refine (hv.sliced hid).mono fun _ _ _ _ _ hx => .at ⟨_, hx.2, ?_⟩
    rw [hp.2]

/-! ### Brackets -/

theorem Faithful.tupleRest (h : Faithful st j s) {inner : NodeIndex} :
    Upholds st (parseTupleRest n (run N) (st.tokenAt i) inner) (fun x _ t => Fronts st i x t)
      s := by
  unfold parseTupleRest
  exact h.starts

theorem Faithful.parenExpr (h : Faithful st i s) (hk : st.kindAt i = .l_paren) :
    Upholds st (parseParenExpr n (run N) (st.tokenAt i)) (fun x _ t => Fronts st i x t) s := by
  unfold parseParenExpr
  refine h.advance (by rw [hk]; decide) fun t ht _ => ?_
  refine ht.within (fun u hu _ _ => hu.check ?_) fun _ _ _ _ hx => hx
  split_ifs
  · exact hu.starts
  · refine (Tellers.fronts (.expr 0) (le_refl (0 : ℤ)) _ _ hu).bind fun inner l v hv _ hinner => ?_
    have hinner := hinner.bracketed hk
    refine hv.check ?_
    split_ifs
    · exact hv.tupleRest
    · exact hv.tell fun _ _ w hw hvw => Upholds.pure hw (hinner.later hvw)

theorem Faithful.arrayLit (h : Faithful st i s) (hk : st.kindAt i = .l_square) :
    Upholds st (parseArrayLitExpr n (run N)) (fun x _ t => Fronts st i x t) s := by
  unfold parseArrayLitExpr parseArrayRest
  refine h.advance (by rw [hk]; decide) fun t ht _ => ?_
  refine ht.within (fun u hu _ _ => hu.check ?_) fun _ _ _ _ hx => hx
  split_ifs
  · exact hu.starts
  · refine hu.tell fun _ _ v hv _ => hv.tell fun c _ w hw _ => ?_
    split_ifs
    · exact hw.starts
    · exact hw.starts

instance : Tells st (parseTensorValues n (run N)) := by
  unfold parseTensorValues
  infer_instance

theorem Faithful.tensorLit (h : Faithful st i s) (hk : st.kindAt i = .kw_tensor) :
    Upholds st (parseTensorLitExpr n (run N)) (fun x _ t => Fronts st i x t) s := by
  unfold parseTensorLitExpr
  refine h.advance (by rw [hk]; decide) fun t ht _ => ht.tell fun _ _ u hu _ => ?_
  refine hu.tell fun values _ v hv _ => ?_
  refine (Stores.stores _ v hv fun w e kids flags _ => ?_).mono fun _ _ _ _ _ hx => .at hx
  exact ⟨none, 0, .plain rfl, fun hne => absurd rfl hne⟩

/-! ### Prefix operators -/

theorem prefixOperator_cases {w : Token.Kind} (hop : isPrefixOperator w = true ∨ w = .star) :
    0 ≤ prefixBindingPower w ∧ w ≠ .eof := by
  rcases hop with hop | rfl
  · revert hop
    cases w <;> decide
  · decide

theorem Faithful.unary {operand : NodeIndex} {z : Span} (h : Faithful st j s)
    (hop : 0 ≤ prefixBindingPower (st.kindAt i)) :
    Upholds st (alloc .UnaryExpr ⟨(st.tokenAt i).tokenSpan.start, z.end⟩ [operand]
      (makeOpPayload (st.tokenAt i).tokenKind.value) 0) (fun x _ t => Fronts st i x t) s := by
  have hp : Follows s.interner (makeOpPayload (st.tokenAt i).tokenKind.value) none
      (st.kindAt i).value .operator := by
    rw [tokenAt_kind]
    rfl
  exact (h.holds hp fun _ _ _ => .unary rfl hop).mono fun _ _ _ _ _ hx => .at hx

theorem Faithful.unaryExpr (h : Faithful st i s) (hop : isPrefixOperator (st.kindAt i) = true) :
    Upholds st (parseUnaryExpr (run N) (st.tokenAt i)) (fun x _ t => Fronts st i x t) s := by
  obtain ⟨hpower, hne⟩ := prefixOperator_cases (.inl hop)
  unfold parseUnaryExpr
  rw [tokenAt_kind]
  have hcall : Tells st (run N (.expr (prefixBindingPower (st.kindAt i)))) :=
    Tellers.call (.expr _) hpower
  refine h.advance hne fun t ht _ => ht.tell fun operand _ u hu _ => Upholds.spanOf fun z hz => ?_
  rw [← tokenAt_kind]
  exact hu.unary hpower

theorem Faithful.starExpr (h : Faithful st i s) (hk : st.kindAt i = .star) :
    Upholds st (parseStarExpr (run N) (st.tokenAt i)) (fun x _ t => Fronts st i x t) s := by
  obtain ⟨hpower, hne⟩ := prefixOperator_cases (.inr hk)
  unfold parseStarExpr
  rw [tokenAt_kind]
  have hcall : Tells st (run N (.expr (prefixBindingPower (st.kindAt i)))) :=
    Tellers.call (.expr _) hpower
  refine h.advance hne fun t ht _ => ht.tell fun operand _ u hu _ => hu.tell fun c _ v hv _ => ?_
  split_ifs
  · exact hv.starts
  · refine Upholds.spanOf fun z hz => ?_
    rw [← tokenAt_kind]
    exact hv.unary hpower

/-! ### Postfix forms -/

instance : Tells st (parseArgList n (run N)) := by
  unfold parseArgList parseArgs
  infer_instance

theorem Faithful.call (h : Faithful st j s) (ho : Fronts st i lhs s) :
    Upholds st (parseCall n (run N) lhs) (fun x _ t => Fronts st i x t) s := by
  unfold parseCall
  refine h.tell fun args _ t ht hst => Upholds.spanOf fun y hy => ?_
  exact ht.extends (ho.later hst) hy

theorem Faithful.postfixIndex (h : Faithful st j s) (ho : Fronts st i lhs s) :
    Upholds st (parsePostfixIndex n (run N) lhs) (fun x _ t => Fronts st i x t) s := by
  unfold parsePostfixIndex
  refine h.tell fun _ _ t ht hst => Upholds.spanOf fun y hy => ht.tell fun indices _ u hu htu => ?_
  exact hu.extends ((ho.later hst).later htu) (htu.spanOf? hy)

theorem Faithful.propagate (h : Faithful st j s) (ho : Fronts st i lhs s) :
    Upholds st (parsePropagate lhs) (fun x _ t => Fronts st i x t) s := by
  unfold parsePropagate
  refine h.tell fun _ _ t ht hst => Upholds.spanOf fun y hy => ?_
  exact ht.extends (ho.later hst) hy

theorem Faithful.cast (h : Faithful st j s) (ho : Fronts st i lhs s) :
    Upholds st (parseCast (run N) lhs) (fun x _ t => Fronts st i x t) s := by
  unfold parseCast
  refine h.tell fun _ _ t ht hst => ht.tell fun type _ u hu htu => Upholds.spanOf fun y hy => ?_
  exact hu.extends ((ho.later hst).later htu) hy

end Productions

/-- An index that ends where its literal does. -/
theorem Faithful.tupleIndex {text : Bytes} {stop : ℕ} (h : Faithful st j s) (ho : Fronts st i lhs s)
    (hspell : ∀ a, Spelling st s.pool .TupleIndexExpr ⟨a, stop⟩ [lhs] (some text) 0) :
    Upholds st (allocTupleIndex lhs stop text) (fun x _ t => Fronts st i x t ∧
      ∃ z, t.pool.spanOf? x = some z ∧ z.end = stop) s := by
  unfold allocTupleIndex
  refine Upholds.spanOf fun y hy => h.intern fun id t ht hst hid => ?_
  refine (ht.stored ⟨_, 0, (hspell y.start).later hst, fun _ => hid⟩).mono fun x _ u hu htu hx => ?_
  exact ⟨ho.same (hst.trans htu) hy ⟨_, hx.2, rfl⟩, _, hx.2, rfl⟩

theorem Faithful.floatIndex {p q : Bytes} (h : Faithful st (j + 1) s) (ho : Fronts st i lhs s)
    (hdot : st.kindAt j = .dot) (hk : st.kindAt (j + 1) = .float_literal)
    (htext : splitDot (st.textAt (j + 1)) = some (p, q)) :
    Upholds st (parseFloatIndex lhs (st.tokenAt (j + 1)) p (dropSuffixF q))
      (fun x _ t => Fronts st i x t) s := by
  unfold parseFloatIndex
  refine h.advance (by rw [hk]; decide) fun t ht hst => ?_
  refine (ht.tupleIndex (ho.later hst) fun _ => .intIndex hdot hk htext rfl).bind
    fun x _ u hu _ hx => ?_
  obtain ⟨hx, z, hz, hend⟩ := hx
  split_ifs
  · exact (hu.tupleIndex hx fun _ => .fracIndex hdot hk htext rfl hz hend).mono
      fun _ _ _ _ _ hy => hy.1
  · exact Upholds.pure hu hx

theorem Faithful.field (h : Faithful st (j + 1) s) (ho : Fronts st i lhs s)
    (hdot : st.kindAt j = .dot) : Upholds st (parseField lhs) (fun x _ t => Fronts st i x t) s := by
  unfold parseField expectAndIntern
  rw [bind_assoc]
  refine h.expect (by decide) fun tok t htok ht hst => ht.internText fun id u hu htu hid => ?_
  rw [htok] at hid
  refine Upholds.spanOf fun y hy => hu.previous fun tok' htok' => ?_
  have hname : Follows u.interner (makePayload id .None) (some (st.textAt (j + 1))) 0 .packedNone :=
    ⟨id, hid, rfl⟩
  refine (hu.stored ⟨_, 0, .field hdot ?_, fun _ => hname⟩).mono fun x _ v _ huv hx => ?_
  · rw [htok']
    rfl
  · exact ((ho.later hst).later htu).same huv hy ⟨_, hx.2, rfl⟩

theorem Faithful.dot (h : Faithful st j s) (ho : Fronts st i lhs s) (hdot : st.kindAt j = .dot) :
    Upholds st (parseDot lhs) (fun x _ t => Fronts st i x t) s := by
  unfold parseDot
  refine h.advance (by rw [hdot]; decide) fun t ht hst => ht.check ?_
  have ho := ho.later hst
  split_ifs with hk
  · have hk : st.kindAt (j + 1) = .integer_literal := of_decide_eq_true hk
    refine ht.advance (by rw [hk]; decide) fun u hu htu => hu.textOf ?_
    exact (hu.tupleIndex (ho.later htu) fun _ => .index hdot hk rfl).mono fun _ _ _ _ _ hx => hx.1
  · unfold Parser.floatIndex
    rw [bind_assoc]
    refine ht.check ?_
    split_ifs with hfloat
    · rw [bind_assoc]
      refine ht.peekToken ?_
      rw [bind_assoc]
      refine ht.textOf ?_
      rw [pure_bind]
      cases hsplit : splitDot (st.textOf (st.tokenAt (j + 1)).tokenSpan) with
      | none => exact ht.field ho hdot
      | some r => exact ht.floatIndex ho hdot (of_decide_eq_true hfloat) hsplit
    · rw [pure_bind]
      exact ht.field ho hdot

variable [Tellers st N]

theorem Faithful.postfixRun (h : Faithful st j s) (ho : Fronts st i lhs s) :
    Upholds st (parsePostfixOrCallExpr n (run N) lhs) (fun x _ t => Fronts st i x t) s := by
  refine Upholds.iterate (I := fun x _ t => Fronts st i x t) (fun lhs j s h ho => ?_) n h ho
  unfold postfixTurn
  refine h.peek ?_
  split
  · exact (h.call ho).bind fun _ _ _ ht _ hx => Upholds.pure ht hx
  · next hdot => exact (h.dot ho hdot).bind fun _ _ _ ht _ hx => Upholds.pure ht hx
  · exact (h.postfixIndex ho).bind fun _ _ _ ht _ hx => Upholds.pure ht hx
  · exact (h.propagate ho).bind fun _ _ _ ht _ hx => Upholds.pure ht hx
  · exact (h.cast ho).bind fun _ _ _ ht _ hx => Upholds.pure ht hx
  · exact Upholds.pure h ho

/-! ### Infix operators -/

theorem infixOperator_fair {w : Token.Kind} (hop : 0 ≤ (infixBindingPower w).1) :
    0 ≤ (infixBindingPower w).2 ∧ w ≠ .eof := by
  revert hop
  cases w <;> decide

/-- An error node takes the place of the expression. -/
theorem Fronts.error {rhs : NodeIndex} {d : NodeData} (h : Fronts st j rhs t) (hij : i ≤ j)
    (hd : t.pool.get? rhs = some d) (hkind : d.kind = .Error) : Fronts st i rhs t := by
  obtain ⟨k, y, hjk, hy, hstart, -⟩ := h
  exact ⟨k, y, hij.trans hjk, hy, hstart, .inr ⟨rhs, d, y, hd, hkind, hy, hstart⟩⟩

theorem Faithful.infixRun (h : Faithful st j s) (ho : Fronts st i lhs s) (hij : i ≤ j)
    (hop : 0 ≤ (infixBindingPower (st.kindAt j)).1) :
    Upholds st (parseInfix (run N) (infixBindingPower (st.kindAt j)).2 lhs)
      (fun r _ t => r.Leads (fun x => Fronts st i x t) (fun x => Fronts st i x t)) s := by
  obtain ⟨hpower, hne⟩ := infixOperator_fair hop
  unfold parseInfix
  refine h.advance hne fun t ht hst => ?_
  refine (Tellers.fronts (.expr _) hpower _ _ ht).bind fun rhs _ u hu htu hrhs => ?_
  refine Upholds.kindOf fun d hd => ?_
  split_ifs with hkind
  · exact Upholds.pure hu (hrhs.error (by omega) hd hkind)
  · refine Upholds.spanOf fun y hy => Upholds.spanOf fun z hz => ?_
    have ho := (ho.later hst).later htu
    obtain ⟨k, z', hjk, hz', hstart, hbetween⟩ := hrhs
    have hp : Follows u.interner (makeOpPayload (st.tokenAt j).tokenKind.value) none
        (st.kindAt j).value .operator := by
      rw [tokenAt_kind]
      rfl
    refine (hu.stored ⟨none, _, .binary hop hjk hz' hstart ?_, fun _ => hp⟩).bind
      fun x _ v hv huv hx => Upholds.pure hv (ho.same huv hy ⟨_, hx.2, rfl⟩)
    exact hbetween.imp (fun hopen l hl hlk => hopen l hl hlk) id

theorem Faithful.infixTurn {minBP : ℤ} (h : Faithful st j s) (ho : Fronts st i lhs s) (hij : i ≤ j)
    (hm : 0 ≤ minBP) : Upholds st (Parser.infixTurn n (run N) minBP lhs)
      (fun r _ t => r.Leads (fun x => Fronts st i x t) (fun x => Fronts st i x t)) s := by
  unfold Parser.infixTurn
  refine (h.postfixRun ho).bind fun x k t ht hst hx => ht.peek ?_
  have hik : i ≤ k := by
    have hforward := hst.precedes.forward
    rw [h.cursor, ht.cursor] at hforward
    omega
  dsimp only
  split_ifs with hlt
  · exact Upholds.pure ht hx
  · exact ht.infixRun hx hik (hm.trans (not_lt.mp hlt))

end Eter.Parser
