import Eter.ParserInvariant

/-!
# What the token helpers do to the invariant
-/

namespace Eter.Parser
open Stateful Brackets Diag

variable {w : Watch} {b e q n : ℕ} {st st' : List Bracket} {hs cs : Held} {s s' : PState}
  {α β : Type} {Q : α → PState → Prop} {k : Token.Kind}

/-! ### Moving on -/

/-- The state one token further. -/
def PState.moved (s : PState) : PState :=
  { s with stream := { s.stream with cursor := s.stream.cursor + 1 } }

theorem TokenStream.advance_of_token {s : TokenStream} {t : Token}
    (ht : s.tokens[s.cursor]? = some t) : s.advance = (t, { s with cursor := s.cursor + 1 }) := by
  unfold TokenStream.advance
  rw [ht]

theorem Holds.moved (h : Holds w b e q st hs s) (hk : s.stream.peek 0 = k)
    (hm : step (symOf k) st = some st') : Holds w (b - 1) e q st' hs s.moved := by
  have hne : s.stream.peek 0 ≠ .eof := by
    rintro heof
    rw [← hk, heof] at hm
    cases hm
  obtain ⟨t, ht, htk⟩ := h.token_of_peek hne
  have hlt := h.cursor_lt hne
  have hbud := h.budget
  refine ⟨h.tokens, ?_, ?_, ?_, h.errors, h.strays, ?_, h.tree⟩
  · exact Nat.le_succ_of_le h.start
  · exact hlt
  · show w.tokens.length ≤ s.stream.cursor + 1 + (b - 1)
    omega
  · have hm' : step (symOf t.tokenKind) st = some st' := by
      rw [htk, hk]
      exact hm
    exact (h.nested_succ ht hm').imp (fun hn => hn.mono le_rfl le_rfl) id

theorem Holds.advance_moved (h : Holds w b e q st hs s) (hk : s.stream.peek 0 = k)
    (hm : step (symOf k) st = some st') :
    Yields advance (fun _ s' => s' = s.moved ∧ Holds w (b - 1) e q st' hs s') s := by
  have hne : s.stream.peek 0 ≠ .eof := by
    rintro heof
    rw [← hk, heof] at hm
    cases hm
  obtain ⟨t, ht, -⟩ := h.token_of_peek hne
  have hadv := TokenStream.advance_of_token (s := s.stream) (h.tokens ▸ ht)
  refine ⟨t, s.moved, ?_, rfl, h.moved hk hm⟩
  unfold Parser.advance PState.moved
  rw [hadv]

theorem Holds.advance (h : Holds w b e q st hs s) (hk : s.stream.peek 0 = k)
    (hm : step (symOf k) st = some st') :
    Yields advance (fun _ s' => Holds w (b - 1) e q st' hs s') s :=
  (h.advance_moved hk hm).mono fun _ _ h' => h'.2

theorem Holds.consume (h : Holds w b e q st hs s) (hm : step (symOf k) st = some st') :
    Yields (consume k) (fun c s' => c = true ∧ s.stream.peek 0 = k ∧ Holds w (b - 1) e q st' hs s' ∨
      c = false ∧ s' = s ∧ s.stream.peek 0 ≠ k) s := by
  by_cases hk : s.stream.peek 0 = k
  · have hcheck : s.stream.check k = true := by simp [TokenStream.check, hk]
    obtain ⟨t, s', ha, hs'⟩ := h.advance hk hm
    refine ⟨true, s', ?_, Or.inl ⟨rfl, hk, hs'⟩⟩
    unfold Parser.consume TokenStream.consume
    unfold Parser.advance at ha
    rw [if_pos hcheck]
    cases ha
    rfl
  · have hcheck : ¬ s.stream.check k = true := by simp [TokenStream.check, hk]
    refine ⟨false, s, ?_, Or.inr ⟨rfl, rfl, hk⟩⟩
    unfold Parser.consume TokenStream.consume
    rw [if_neg hcheck]

/-! ### Reporting -/

theorem Holds.reported (h : Holds w b e q st hs s) (d : PhaseDiagnostic) :
    Holds w b (e + 1) q st hs { s with errors := s.errors ++ [d] } := by
  obtain ⟨rs, hp, hg⟩ := h.tree
  have herr := h.errors
  refine ⟨h.tokens, h.start, h.inside, h.budget, ?_, h.strays, ?_, rs, hp, hg.report d⟩
  · simp
    omega
  · exact h.nested.imp (fun hn => hn.mono (by simp) le_rfl) id

theorem Holds.report (h : Holds w b e q st hs s) (d : PhaseDiagnostic) :
    Yields (report d) (fun _ s' => Holds w b (e + 1) q st hs s' ∧ s'.stream = s.stream) s :=
  ⟨(), _, rfl, h.reported d, rfl⟩

theorem Holds.addError (h : Holds w b e q st hs s) (loc : Span) (id : DiagID) :
    Yields (addError loc id) (fun _ s' => Holds w b (e + 1) q st hs s' ∧ s'.stream = s.stream) s :=
  h.report _

/-! ### Missing and skipped tokens -/

theorem keep_of_not_brace (hk : isBrace k = false) :
    (symOf k).keep (fun b => b = Bracket.brace) = .neutral := by
  cases k <;> first | rfl | cases hk

/-- An expected token is missing: an error is reported and the parser goes on as behind it. -/
theorem Holds.missing (h : Holds w b e q st hs s) (hm : step (symOf k) st = some st')
    (d : PhaseDiagnostic) :
    Holds w b (e + 1) q st' hs { s with
      strays := if isBrace k then s.strays + 1 else s.strays
      errors := s.errors ++ [d] } := by
  obtain ⟨rs, hp, hg⟩ := h.tree
  have herr := h.errors
  have hq := h.strays
  have hstep := w.mode.step_tracked hm
  refine ⟨h.tokens, h.start, h.inside, h.budget, ?_, ?_, ?_, rs, hp, hg.report d⟩
  · simp
    omega
  · show q ≤ if isBrace k = true then s.strays + 1 else s.strays
    split_ifs <;> omega
  · cases hmode : w.mode with
    | acceptance =>
      refine Or.inl ?_
      simp [Mode.Noisy]
    | containment =>
      by_cases hk : isBrace k = true
      · refine Or.inl ?_
        simp [Mode.Noisy, hk]
      · have hn := h.nested
        rw [hmode] at hstep hn
        have hkeep := keep_of_not_brace (Bool.eq_false_iff.mpr hk)
        have hst : Mode.containment.tracked st = Mode.containment.tracked st' := by
          simpa [Mode.sym, hkeep, step] using hstep
        rw [← hst]
        refine hn.imp (fun hn => hn.mono (by simp) ?_) id
        simp [hk]

/-- A token is dropped after an error. -/
theorem Holds.dropped (h : Holds w b e q st hs s) (he : 1 ≤ e) {t : Token}
    (ht : w.tokens[s.stream.cursor]? = some t) :
    Holds w (b - 1) e q st hs { s.moved with
      strays := if isBrace t.tokenKind then s.strays + 1 else s.strays } := by
  obtain ⟨hlt, -⟩ := List.getElem?_eq_some_iff.mp ht
  have hbud := h.budget
  have hq := h.strays
  have herr := h.errors
  refine ⟨h.tokens, ?_, hlt, ?_, h.errors, ?_, ?_, h.tree⟩
  · exact Nat.le_succ_of_le h.start
  · show w.tokens.length ≤ s.stream.cursor + 1 + (b - 1)
    omega
  · show q ≤ if isBrace t.tokenKind = true then s.strays + 1 else s.strays
    split_ifs <;> omega
  · cases hmode : w.mode with
    | acceptance => exact Or.inl (he.trans h.errors)
    | containment =>
      by_cases hk : isBrace t.tokenKind = true
      · refine Or.inl ?_
        simp [Mode.Noisy, hk]
      · have hn := h.nested
        have hkeep := keep_of_not_brace (Bool.eq_false_iff.mpr hk)
        have hword := Watch.word_succ h.start ht
        rw [hmode] at hn hword
        show _ ∨ Brackets.run (w.word (s.stream.cursor + 1)) [] = _
        rcases hn with hn | hn
        · refine Or.inl (hn.mono le_rfl ?_)
          simp [hk]
        · refine Or.inr ?_
          rw [hword]
          refine run_concat hn ?_
          simp [Mode.sym, hkeep, step]

theorem Holds.skip (h : Holds w b e q st hs s) (he : 1 ≤ e) :
    Yields skip (fun _ s' => Holds w b e q st hs s' ∧
      (s.stream.peek 0 ≠ .eof → Holds w (b - 1) e q st hs s')) s := by
  cases ht : w.tokens[s.stream.cursor]? with
  | some t =>
    have hadv := TokenStream.advance_of_token (s := s.stream) (h.tokens ▸ ht)
    have hpeek : s.stream.peek 0 = t.tokenKind := by
      unfold TokenStream.peek
      rw [h.tokens, Nat.add_zero, ht]
    have hd := h.dropped he ht
    refine ⟨(), _, ?_, hd.more (Nat.sub_le b 1), fun _ => hd⟩
    show Except.ok ((), ({ stream := s.stream.advance.2, .. } : PState)) = _
    rw [hadv, hpeek]
    rfl
  | none =>
    have hpeek : s.stream.peek 0 = .eof := by
      unfold TokenStream.peek
      rw [h.tokens, Nat.add_zero, ht]
    have hadv : s.stream.advance.2 = s.stream := by
      unfold TokenStream.advance
      rw [h.tokens, ht]
    refine ⟨(), s, ?_, h, fun hne => (hne hpeek).elim⟩
    show Except.ok ((), ({ stream := s.stream.advance.2, .. } : PState)) = _
    rw [hadv, hpeek]
    rfl

/-! ### Recovery -/

theorem Holds.skipTokens (h : Holds w b e q st hs s) (he : 1 ≤ e) (stop : Token.Kind → Bool)
    (hn : b < n) : Yields (skipTokens stop n) (fun _ s' => Holds w b e q st hs s') s := by
  induction n generalizing b s with
  | zero => omega
  | succ n ih =>
    unfold Parser.skipTokens
    refine Yields.read rfl (Yields.read rfl ?_)
    split_ifs with hstop
    · exact Yields.pure h
    · simp only [Bool.or_eq_true, not_or, Bool.not_eq_true] at hstop
      have hne := peek_ne_eof hstop.2
      have hpos := h.pos hne
      refine (h.skip he).bind fun _ s' h' => ?_
      exact (ih (h'.2 hne) (by omega)).mono fun _ _ h' => h'.more (Nat.sub_le b 1)

theorem Holds.unread_le (h : Holds w b e q st hs s) :
    s.stream.tokens.length - s.stream.cursor ≤ b := by
  have hbud := h.budget
  rw [h.tokens]
  omega

theorem Holds.skipUntil (h : Holds w b e q st hs s) (he : 1 ≤ e) (stop : Token.Kind → Bool) :
    Yields (skipUntil stop) (fun _ s' => Holds w b e q st hs s') s := by
  have hle := h.unread_le
  have hexact := h.exact
  rw [← h.tokens] at hexact
  exact (hexact.skipTokens he stop (Nat.lt_succ_self _)).mono fun _ _ h' => h'.more hle

/-- Unless it stops at once, the loop consumes a token. -/
theorem Holds.skipUntil_moves (h : Holds w b e q st hs s) (he : 1 ≤ e)
    {stop : Token.Kind → Bool} (hstop : stop (s.stream.peek 0) = false)
    (heof : s.stream.peek 0 ≠ .eof) :
    Yields (Parser.skipUntil stop) (fun _ s' => Holds w (b - 1) e q st hs s') s := by
  have hatEof : s.stream.atEof = false := by
    simpa [TokenStream.atEof, TokenStream.check] using heof
  have hpos := h.exact.pos heof
  have hle := h.unread_le
  rw [h.tokens] at hle
  show Yields (Parser.skipTokens stop (s.stream.tokens.length - s.stream.cursor + 1)) _ s
  unfold Parser.skipTokens
  refine Yields.read rfl (Yields.read rfl ?_)
  rw [hstop, hatEof, if_neg (by simp)]
  refine (h.exact.skip he).bind fun _ s' h' => ?_
  exact ((h'.2 heof).skipTokens he stop (by rw [h.tokens]; omega)).mono fun _ _ h' =>
    h'.more (by omega)

theorem Holds.syncTokens (h : Holds w b e q st hs s) (he : 1 ≤ e) (hn : b < n) :
    Yields (syncTokens n) (fun _ s' => Holds w b e q st hs s') s := by
  induction n generalizing b s with
  | zero => omega
  | succ n ih =>
    unfold Parser.syncTokens
    refine Yields.read rfl ?_
    split_ifs with hatEof
    · exact Yields.pure h
    · refine Yields.read rfl ?_
      split_ifs
      · exact Yields.pure h
      · refine Yields.read rfl ?_
        split_ifs
        · exact Yields.pure h
        · have hne := peek_ne_eof (Bool.eq_false_iff.mpr hatEof)
          have hpos := h.pos hne
          refine (h.skip he).bind fun _ s' h' => ?_
          exact (ih (h'.2 hne) (by omega)).mono fun _ _ h' => h'.more (Nat.sub_le b 1)

theorem Holds.syncRest (h : Holds w b e q st hs s) (he : 1 ≤ e) :
    Yields syncRest (fun _ s' => Holds w b e q st hs s') s := by
  have hle := h.unread_le
  have hexact := h.exact
  rw [← h.tokens] at hexact
  exact (hexact.syncTokens he (Nat.lt_succ_self _)).mono fun _ _ h' => h'.more hle

/-- `synchronize` always consumes a token when there is one. -/
theorem Holds.synchronize (h : Holds w b e q st hs s) (he : 1 ≤ e) :
    Yields synchronize (fun _ s' => Holds w b e q st hs s' ∧
      (s.stream.peek 0 ≠ .eof → Holds w (b - 1) e q st hs s')) s := by
  unfold Parser.synchronize
  refine Yields.read rfl ?_
  split_ifs with hatEof
  · refine (h.syncRest he).mono fun _ s' h' => ⟨h', fun hne => ?_⟩
    exact (hne (by simpa [TokenStream.atEof, TokenStream.check] using hatEof)).elim
  · have hne := peek_ne_eof (Bool.eq_false_iff.mpr hatEof)
    refine (h.skip he).bind fun _ s₁ h₁ => ?_
    exact ((h₁.2 hne).syncRest he).mono fun _ s' h' => ⟨h'.more (Nat.sub_le b 1), fun _ => h'⟩

/-! ### Expecting tokens -/

theorem Holds.expect_hit (h : Holds w b e q st hs s) (hk : s.stream.peek 0 = k)
    (hm : step (symOf k) st = some st') (d : DiagID) (context : String) :
    Yields (expect k d context) (fun _ s' => Holds w (b - 1) e q st' hs s') s := by
  unfold Parser.expect
  refine (h.consume hm).bind ?_
  rintro _ s₁ (⟨rfl, -, h₁⟩ | ⟨-, -, hne⟩)
  · exact ⟨_, _, rfl, h₁⟩
  · exact (hne hk).elim

/-- The token is consumed, or its absence is reported; either way it counts as consumed. -/
theorem Holds.expect (h : Holds w b e q st hs s) (hm : step (symOf k) st = some st')
    (d : DiagID) (context : String) :
    Yields (expect k d context) (fun _ s' => Holds w b e q st' hs s' ∧
      (s.stream.peek 0 ≠ k → Holds w b (e + 1) q st' hs s')) s := by
  unfold Parser.expect
  refine (h.consume hm).bind ?_
  rintro _ s₁ (⟨rfl, hk, h₁⟩ | ⟨rfl, rfl, -⟩)
  · exact ⟨_, _, rfl, h₁.more (Nat.sub_le b 1), fun hne => (hne hk).elim⟩
  · have hmiss := h.missing hm
    exact ⟨_, _, rfl, (hmiss _).fewer (Nat.le_succ e), fun _ => hmiss _⟩

theorem Holds.slipped (h : Holds w b e q st hs s) (x : Slip) :
    Holds w b e q st hs { s with slips := s.slips ++ [x] } :=
  { h with nested := h.nested.imp (fun hn => hn.mono le_rfl le_rfl) id }

/-! ### Names -/

theorem Holds.internText (h : Holds w b e q st hs s) (span : Span) :
    Yields (internText span) (fun id s' => Holds w b e q st hs s' ∧ s'.stream = s.stream ∧
      ∃ text, s'.interner.get? id = some text) s := by
  refine ⟨_, _, rfl, { h with nested := ?_ }, rfl, _, StringInterner.get?_intern _ _⟩
  exact h.nested.imp (fun hn => hn.mono le_rfl le_rfl) id

theorem Holds.intern (h : Holds w b e q st hs s) (text : Bytes) :
    Yields (intern text) (fun _ s' => Holds w b e q st hs s') s :=
  ⟨_, _, rfl, { h with nested := h.nested.imp (fun hn => hn.mono le_rfl le_rfl) id }⟩

theorem Holds.expectName (h : Holds w b e q st hs s) (hm : step (symOf k) st = some st)
    (construct : String) :
    Yields (expectName k construct) (fun id s' => Holds w b e q st hs s' ∧
      ∃ text, s'.interner.get? id = some text) s := by
  unfold Parser.expectName
  refine (h.consume hm).bind ?_
  rintro _ s₁ (⟨rfl, -, h₁⟩ | ⟨rfl, rfl, -⟩)
  · refine Yields.read rfl ?_
    exact (h₁.internText _).mono fun id s' ⟨h', _, ht⟩ => ⟨h'.more (Nat.sub_le b 1), ht⟩
  · refine Yields.read rfl ?_
    refine (h.report _).bind fun _ s₂ h₂ => ?_
    exact (h₂.1.internText _).mono fun id s' ⟨h', _, ht⟩ => ⟨h'.fewer (Nat.le_succ e), ht⟩

theorem Holds.expectAndIntern (h : Holds w b e q st hs s) (hm : step (symOf k) st = some st)
    (d : DiagID) :
    Yields (expectAndIntern k d) (fun _ s' => Holds w b e q st hs s') s := by
  unfold Parser.expectAndIntern
  refine (h.expect hm d "").bind fun _ s₁ h₁ => ?_
  exact (h₁.1.internText _).mono fun _ s' h' => h'.1

theorem Holds.parseRegime (h : Holds w b e q st hs s) :
    Yields parseRegime (fun _ s' => Holds w b e q st hs s') s := by
  unfold Parser.parseRegime
  refine Yields.read rfl ?_
  have hadv : ∀ {k r}, s.stream.peek 0 = k → step (symOf k) st = some st →
      Yields (do let _ ← Parser.advance; pure r : ParserM Regime)
        (fun _ s' => Holds w b e q st hs s') s := by
    intro k r hk hm
    exact (h.advance hk hm).bind fun _ s₁ h₁ => Yields.pure (h₁.more (Nat.sub_le b 1))
  split
  · exact hadv ‹_› rfl
  · exact hadv ‹_› rfl
  · exact hadv ‹_› rfl
  · exact Yields.pure h

/-! ### Nodes -/

theorem errors_ne_nil (h : Holds w b e q st hs s) (he : 1 ≤ e) : s.errors ≠ [] := by
  have hlen := h.errors
  intro h0
  rw [h0] at hlen
  simp at hlen
  omega

/-- A new node is one more record. -/
theorem alloc_records {rs : List NodeRecord} (hp : s.pool = poolOf rs) (kind : NodeKind) (z : Span)
    (kids : List NodeIndex) (payload flags : ℕ) :
    Parser.alloc kind z kids payload flags s = .ok (some rs.length,
      { s with pool := poolOf (rs ++ [⟨kind, z, kids, payload, flags⟩]) }) := by
  have hidx : (s.pool.alloc kind z kids payload flags).1 = some rs.length := by
    show some s.pool.nodes.length = _
    rw [hp, poolOf_nodes_length]
  have hpool : (s.pool.alloc kind z kids payload flags).2 =
      poolOf (rs ++ [⟨kind, z, kids, payload, flags⟩]) := by
    rw [poolOf_concat, ← hp]
    rfl
  rw [← hidx, ← hpool]
  rfl

/-- A new node adopts the last held ones. -/
theorem Holds.alloc {held : Held} (h : Holds w b e q st held s) (cs : Held)
    (hheld : held = hs ++ cs) {kind : NodeKind} {c : Cat} {span : Span} {kids : List NodeIndex}
    {payload flags : ℕ} (hkids : kids = cs.indices)
    (hfit : Layout.Fits (fun c p => p.2 = c) (layoutOf kind) cs)
    (hcounts : TensorCounts kind payload kids.length)
    (hclean : 1 ≤ e ∨ kind ≠ .Error ∧ TensorDims kind payload kids.length)
    (hadmits : c.admits kind (bodyless kids) = true) :
    Yields (alloc kind span kids payload flags)
      (fun i s' => Holds w b e q st (hs ++ [(i, c)]) s') s := by
  subst hheld
  obtain ⟨rs, hp, hg⟩ := h.tree
  have hgrown := hg.alloc (r := ⟨kind, span, kids, payload, flags⟩) (c := c) hkids hfit hcounts
    (fun h0 => hclean.resolve_left fun he => errors_ne_nil h he h0) hadmits
  exact ⟨_, _, alloc_records hp kind span kids payload flags, { h with
    nested := h.nested.imp (fun hn => hn.mono le_rfl le_rfl) id
    tree := ⟨_, rfl, hgrown⟩ }⟩

/-- The kinds whose records are subject to no more than their layout. -/
def isPlain (kind : NodeKind) : Bool :=
  kind != .Error && kind != .TensorType && kind != .TensorLitExpr

theorem Holds.allocPlain {held : Held} (h : Holds w b e q st held s) (cs : Held)
    (hheld : held = hs ++ cs) {kind : NodeKind} {c : Cat} {span : Span} {kids : List NodeIndex}
    {payload flags : ℕ} (hplain : isPlain kind = true) (hkids : kids = cs.indices)
    (hfit : Layout.Fits (fun c p => p.2 = c) (layoutOf kind) cs)
    (hadmits : c.admits kind (bodyless kids) = true) :
    Yields (Parser.alloc kind span kids payload flags)
      (fun i s' => Holds w b e q st (hs ++ [(i, c)]) s') s := by
  have hk : kind ≠ .Error ∧ kind ≠ .TensorType ∧ kind ≠ .TensorLitExpr := by
    simpa [isPlain, and_assoc] using hplain
  refine h.alloc cs hheld hkids hfit (fun h' => (hk.2.2 h').elim) (Or.inr ⟨hk.1, ?_, ?_⟩) hadmits
  · exact fun h' => (hk.2.1 h').elim
  · exact fun h' => (hk.2.2 h').elim

theorem Holds.allocLeaf (h : Holds w b e q st hs s) {kind : NodeKind} {c : Cat} {span : Span}
    {payload : ℕ} (hplain : isPlain kind = true)
    (hfit : Layout.Fits (fun c p => p.2 = c) (layoutOf kind) ([] : Held))
    (hadmits : c.admits kind false = true) :
    Yields (Parser.allocLeaf kind span payload)
      (fun i s' => Holds w b e q st (hs ++ [(i, c)]) s') s :=
  h.allocPlain [] (List.append_nil hs).symm hplain rfl hfit hadmits

theorem Holds.makeErrorNode (h : Holds w b e q st hs s) (he : 1 ≤ e) {c : Cat} (span : Span)
    (hadmits : c.admits .Error false = true) :
    Yields (makeErrorNode span) (fun i s' => Holds w b e q st (hs ++ [(i, c)]) s') s :=
  h.alloc [] (List.append_nil hs).symm rfl .nil (by rintro ⟨⟩) (Or.inl he) hadmits

theorem Holds.spanOf (h : Holds w b e q st hs s) {i : NodeIndex} {c : Cat} (hmem : (i, c) ∈ hs)
    (hnull : c.nullable = false) {f : Span → ParserM α} (hf : ∀ span, Yields (f span) Q s) :
    Yields (spanOf i >>= f) Q s := by
  obtain ⟨rs, hp, hg⟩ := h.tree
  obtain ⟨j, r, rfl, -, hr⟩ := hg.record_of_held hmem hnull
  refine Yields.read (a := r.span) ?_ (hf _)
  unfold Parser.spanOf
  rw [hp, spanOf?_of_record hr]

/-- A node of kind `Error` is only there when an error was reported. -/
theorem Holds.kindOf (h : Holds w b e q st hs s) {i : NodeIndex} {c : Cat} (hmem : (i, c) ∈ hs)
    (hnull : c.nullable = false) {f : NodeKind → ParserM α}
    (hf : ∀ kind, (kind = .Error → Holds w b (max e 1) q st hs s) → Yields (f kind) Q s) :
    Yields (kindOf i >>= f) Q s := by
  obtain ⟨rs, hp, hg⟩ := h.tree
  obtain ⟨j, r, rfl, hj, hr⟩ := hg.record_of_held hmem hnull
  refine Yields.read (a := r.kind) ?_ (hf _ fun hkind => ?_)
  · unfold Parser.kindOf
    rw [hp, get?_of_record hr]
    rfl
  · have hne : s.errors ≠ [] := fun h0 => (hg.clean h0 j r hj hr).1 hkind
    have hpos := List.length_pos_iff.mpr hne
    exact { h with errors := max_le h.errors hpos }

/-! ### Struct literals allowed or not -/

theorem Holds.withStructLit (h : Holds w b e q st hs s) {allowed : Bool} {m : ParserM α}
    (hm : ∀ s', Holds w b e q st hs s' → Yields m Q s')
    (hQ : ∀ a s' x, Q a s' → Q a { s' with structLitAllowed := x }) :
    Yields (withStructLit allowed m) Q s := by
  obtain ⟨a, s', ha, hs'⟩ := hm _ (h.structLit allowed)
  refine ⟨a, { s' with structLitAllowed := s.structLitAllowed }, ?_, hQ _ _ _ hs'⟩
  show (do let p ← m { s with structLitAllowed := allowed }
           Except.ok (p.1, { p.2 with structLitAllowed := s.structLitAllowed })) = _
  rw [ha]
  rfl

end Eter.Parser
