import Eter.WordingExprs

/-!
# Words in statements and declarations
-/

namespace Eter.Parser
open NodePool Stateful Diag

set_option synthInstance.maxSize 1000

variable {st : TokenStream} {s : PState} {n N i : ℕ}

instance : Plain .RetStmt := ⟨rfl⟩
instance : Plain .BreakStmt := ⟨rfl⟩
instance : Plain .ContinueStmt := ⟨rfl⟩
instance : Plain .ParamList := ⟨rfl⟩
instance : Plain .ImplDecl := ⟨rfl⟩
instance : Plain .SourceFile := ⟨rfl⟩

/-! ### Statements without calls -/

instance (b : Bool) (context noteText : String) : Tells st (requireSemi b context noteText) := by
  unfold requireSemi
  infer_instance

instance (xs : List NodeIndex) : Tells st (endsInError xs) := by
  unfold endsInError
  cases xs.getLast? <;> infer_instance

instance (xs : List NodeIndex) : Tells st (closeLet xs) := by
  unfold closeLet resyncLet
  infer_instance

instance : Tells st closeArm := by
  unfold closeArm
  infer_instance

theorem Faithful.openUnsafe (h : Faithful st (i + 1) s) (hk : st.kindAt i = .kw_unsafe_) :
    Upholds st Parser.openUnsafe (fun _ _ _ => True) s := by
  unfold Parser.openUnsafe
  refine h.consume (by decide) fun t ht _ => ?_
  unfold TokenStream.past at ht
  by_cases hopen : st.kindAt (i + 1) = .l_brace
  · rw [decide_eq_true hopen, if_pos rfl]
    exact Upholds.pure ht trivial
  · rw [if_neg hopen] at ht
    rw [decide_eq_false hopen, if_neg Bool.false_ne_true]
    exact ht.countStray fun u hu _ => hu.slip ⟨i, hk, hopen⟩ fun v hv _ => Faithful.told hv

instance (tok : Token) : Tells st (parseBadStmt tok) := by
  unfold parseBadStmt
  infer_instance

instance : Tells st parseBreakStmt := by
  unfold parseBreakStmt parseJumpStmt
  infer_instance

instance : Tells st parseContinueStmt := by
  unfold parseContinueStmt parseJumpStmt
  infer_instance

section Productions

variable [Tellers st N]

/-! ### Statements -/

instance : Tells st (parseExprStmt (run N)) := by
  unfold parseExprStmt
  infer_instance

instance : Tells st (parseRetStmt (run N)) := by
  unfold parseRetStmt
  infer_instance

instance : Tells st (parseHeaderExpr (run N)) := by
  unfold parseHeaderExpr
  infer_instance

instance : Tells st (parseElse (run N)) := by
  unfold parseElse
  infer_instance

instance : Tells st (parseLetType (run N)) := by
  unfold parseLetType
  infer_instance

instance : Tells st (parseLetInit (run N)) := by
  unfold parseLetInit
  infer_instance

instance : Tells st (parseMatchArm (run N)) := by
  unfold parseMatchArm
  infer_instance

instance : Tells st (parseLetStmt (run N)) where
  upholds i s h := by
    unfold parseLetStmt
    refine h.expect (by decide) fun tok t htok ht _ => ht.parseRegime fun u hu _ => ?_
    refine hu.expectName fun id v hv _ hid => ?_
    rw [htok]
    refine (hv.packed rfl hid fun _ _ _ => ?_).told
    exact .binder rfl rfl rfl

instance : Tells st (parseForStmt (run N)) where
  upholds i s h := by
    unfold parseForStmt
    refine h.expect (by decide) fun tok t htok ht _ => ht.parseRegime fun u hu _ => ?_
    refine hu.expectName fun id v hv _ hid => ?_
    rw [htok]
    refine (hv.packed rfl hid fun _ _ _ => ?_).told
    exact .binder rfl rfl rfl

/-! ### Expressions that start with a word -/

theorem Faithful.ifExpr (h : Faithful st i s) :
    Upholds st (parseIfExpr (run N)) (fun x _ t => Fronts st i x t) s := by
  unfold parseIfExpr
  refine h.expect (by decide) fun tok t htok ht _ => ?_
  rw [htok]
  exact ht.starts

theorem Faithful.whileStmt (h : Faithful st i s) :
    Upholds st (parseWhileStmt (run N)) (fun x _ t => Fronts st i x t) s := by
  unfold parseWhileStmt
  refine h.expect (by decide) fun tok t htok ht _ => ?_
  rw [htok]
  exact ht.starts

theorem Faithful.matchExpr (h : Faithful st i s) :
    Upholds st (parseMatchExpr n (run N)) (fun x _ t => Fronts st i x t) s := by
  unfold parseMatchExpr
  refine h.expect (by decide) fun tok t htok ht _ => ?_
  rw [htok]
  exact ht.starts

theorem Faithful.unsafeBlock (h : Faithful st i s) (hk : st.kindAt i = .kw_unsafe_) :
    Upholds st (parseUnsafeBlock n (run N)) (fun x _ t => Fronts st i x t) s := by
  unfold parseUnsafeBlock
  refine h.expect (by decide) fun tok t htok ht _ => ?_
  unfold TokenStream.past at ht
  rw [if_pos hk] at ht
  rw [htok]
  exact (ht.openUnsafe hk).bind fun _ _ u hu _ _ => hu.starts

theorem Faithful.blockExpr (h : Faithful st i s) :
    Upholds st (parseBlockExpr n (run N)) (fun x _ t => Fronts st i x t) s := by
  unfold parseBlockExpr
  refine h.expect (by decide) fun tok t htok ht _ => ?_
  rw [htok]
  exact ht.starts

theorem Faithful.prefixExpr (h : Faithful st i s) :
    Upholds st (parsePrefixExpr n (run N)) (fun x _ t => Fronts st i x t) s := by
  unfold parsePrefixExpr
  refine h.peekToken ?_
  rw [tokenAt_kind]
  split
  · next hlit =>
    refine h.advance ?_ fun t ht _ => ht.litExpr
    intro heof
    rw [heof] at hlit
    cases hlit
  · split
    · next hop => exact h.unaryExpr hop
    · split
      · next hk => exact h.nameExpr hk
      · next hk => exact h.parenExpr hk
      · next hk => exact h.arrayLit hk
      · exact Tellers.fronts .ifExpr trivial i s h
      · exact h.whileStmt
      · exact h.matchExpr
      · next hk => exact h.unsafeBlock hk
      · exact Tellers.fronts .block trivial i s h
      · next hk => exact h.tensorLit hk
      · next hk => exact h.starExpr hk
      · exact h.badExpr

theorem Faithful.expr {minBP : ℤ} (h : Faithful st i s) (hm : 0 ≤ minBP) :
    Upholds st (parseExpr n (run N) minBP) (fun x _ t => Fronts st i x t) s := by
  unfold parseExpr
  refine h.prefixExpr.bind fun lhs j t ht hst hx => ?_
  have hij : i ≤ j := by
    have hforward := hst.precedes.forward
    rw [h.cursor, ht.cursor] at hforward
    exact hforward
  refine Upholds.iterate (I := fun x j t => Fronts st i x t ∧ i ≤ j) (fun lhs j s h hI => ?_) n ht
    ⟨hx, hij⟩
  refine (h.infixTurn hI.1 hI.2 hm).mono fun r k t ht hst hr => ?_
  cases r with
  | again x =>
    have hforward := hst.precedes.forward
    rw [h.cursor, ht.cursor] at hforward
    exact ⟨hr, hI.2.trans hforward⟩
  | done x => exact hr

instance : Tells st (parseWhileStmt (run N)) := ⟨fun _ _ h => h.whileStmt.told⟩

instance : Tells st (parseStmt n (run N)) where
  upholds i s h := by
    unfold parseStmt
    refine h.peekToken ?_
    rw [tokenAt_kind]
    split
    · exact Faithful.told h
    · split
      · exact Faithful.told h
      · exact Faithful.told h
      · exact Faithful.told h
      · exact Faithful.told h
      · exact Faithful.told h
      · exact Faithful.told h
      · exact Faithful.told h
      · exact Faithful.told h
      · next hk => exact (h.unsafeBlock hk).told
      · exact Faithful.told h

end Productions

end Eter.Parser
