import Eter.Resynchronisation

/-!
# Semicolons behind block-like statements

A `match` needs a semicolon behind it and the other block-like statements bear none, so that the
semicolon is optional behind none of them.
-/

namespace Eter.Parser
open Stateful NodePool Diag

variable {s s₁ s₂ t u : PState} {n i j e m : ℕ} {close : Token.Kind} {x : NodeIndex}
  {el : ParserM NodeIndex} {xs : List NodeIndex} {rec : Rec}

/-- The tokens with which a block-like expression starts. -/
def isBlockLike (k : Token.Kind) : Bool :=
  k = .kw_if || k = .kw_while || k = .kw_match || k = .l_brace || k = .kw_unsafe_

/-- A block-like expression without errors at token `i`, up to token `j`. -/
structure BlockLike (s : PState) (i j : ℕ) : Prop where
  starts : isBlockLike (s.kindAt i) = true
  clean : ∃ d, ∀ n ≥ d, Yields (parsePrefixExpr n (run n))
    (fun _ t => t.stream.cursor = j ∧ t.errors = s.errors) (s.at i)

/-- All but `match` are parsed alike as statements and as expressions. -/
theorem parseStmt_blockLike (hk : isBlockLike (s.stream.peek 0) = true)
    (hmatch : s.stream.peek 0 ≠ .kw_match) : parseStmt n rec s = parsePrefixExpr n rec s := by
  obtain ⟨f, hf, hstmt⟩ : ∃ f, parseStmt n rec = Parser.peekToken >>= f ∧ ∀ tok : Token,
      (tok.tokenKind = .kw_if → f tok = rec .ifExpr) ∧
      (tok.tokenKind = .kw_while → f tok = parseWhileStmt rec) ∧
      (tok.tokenKind = .l_brace → f tok = rec .block) ∧
      (tok.tokenKind = .kw_unsafe_ → f tok = parseUnsafeBlock n rec) := by
    refine ⟨_, rfl, fun tok => ⟨?_, ?_, ?_, ?_⟩⟩ <;> intro hk <;>
      rw [hk, if_neg (by decide)]
  obtain ⟨g, hg, hexpr⟩ : ∃ g, parsePrefixExpr n rec = Parser.peekToken >>= g ∧ ∀ tok : Token,
      (tok.tokenKind = .kw_if → g tok = rec .ifExpr) ∧
      (tok.tokenKind = .kw_while → g tok = parseWhileStmt rec) ∧
      (tok.tokenKind = .l_brace → g tok = rec .block) ∧
      (tok.tokenKind = .kw_unsafe_ → g tok = parseUnsafeBlock n rec) := by
    refine ⟨_, rfl, fun tok => ⟨?_, ?_, ?_, ?_⟩⟩ <;> intro hk <;>
      rw [hk, if_neg (by decide), if_neg (by decide)]
  rw [hf, hg]
  show f (s.stream.peekToken 0) s = g (s.stream.peekToken 0) s
  have hkind : (s.stream.peekToken 0).tokenKind = s.stream.peek 0 := peekToken_kind _
  obtain ⟨hif, hwhile, hbrace, hguard⟩ := hstmt (s.stream.peekToken 0)
  obtain ⟨hif', hwhile', hbrace', hguard'⟩ := hexpr (s.stream.peekToken 0)
  simp only [isBlockLike, Bool.or_eq_true, decide_eq_true_eq] at hk
  rcases hk with (((hk | hk) | hk) | hk) | hk <;> rw [hk] at hkind
  · rw [hif hkind, hif' hkind]
  · rw [hwhile hkind, hwhile' hkind]
  · exact absurd hk hmatch
  · rw [hbrace hkind, hbrace' hkind]
  · rw [hguard hkind, hguard' hkind]

theorem parseStmt_match (hk : s.stream.peek 0 = .kw_match) :
    parseStmt n rec s = parseExprStmt rec s := by
  have hkind : (s.stream.peekToken 0).tokenKind = .kw_match := (peekToken_kind _).trans hk
  unfold parseStmt
  show (if startsExprStmt (s.stream.peekToken 0).tokenKind = true then parseExprStmt rec
    else _ : ParserM NodeIndex) s = _
  rw [hkind, if_pos (by decide)]

theorem BlockLike.stmt (h : BlockLike s i j) (hmatch : s.kindAt i ≠ .kw_match) :
    Clean s .stmt i j := by
  obtain ⟨d, hd⟩ := h.clean
  refine ⟨d + 1, fun n hn => ?_⟩
  obtain ⟨n, rfl⟩ : ∃ m, n = m + 1 := ⟨n - 1, by omega⟩
  obtain ⟨x, t, hrun, ht⟩ := hd n (by omega)
  exact ⟨x, t, (parseStmt_blockLike h.starts hmatch).trans hrun, ht⟩

/-- Before a token that is no operator the whole expression is this one. -/
theorem BlockLike.expr (h : BlockLike s i j) (hends : Ends (s.kindAt j) 0) :
    Clean s (.expr 0) i j := by
  obtain ⟨d, hd⟩ := h.clean
  refine ⟨d + 2, fun n hn => ?_⟩
  obtain ⟨n, rfl⟩ : ∃ m, n = m + 1 := ⟨n - 1, by omega⟩
  refine expr_of_prefix (by omega) ?_
  obtain ⟨x, t, hrun, hcur, herr⟩ := hd n (by omega)
  have hshares := precedes_grow.walk.parsePrefixExpr (n := n) (precedes_grow.walk.run n) _ _ _ hrun
  refine ⟨x, t, hrun, ⟨hcur, herr⟩, ?_⟩
  have hkind : t.kindAt j = s.kindAt j :=
    PState.Shares.kindAt (s := s) ⟨hshares.tokens, hshares.source, hshares.lit⟩ j
  rwa [PState.peek_of_cursor hcur, hkind]

/-! ### Reports inside blocks -/

/-- What an element behind others reports stays reported. -/
theorem Gathers.reports (h : Gathers close el s xs t) (hel : Leads PState.Precedes el)
    (hclose : t.stream.peek 0 ≠ close) (heof : t.stream.peek 0 ≠ .eof)
    (hrep : ∀ x u, el t = .ok (x, u) → t.errors.length < u.errors.length) (hn : xs.length < n) :
    ∀ ys u, parseUntil n [] close el s = .ok (ys, u) → t.errors.length < u.errors.length := by
  intro ys u hrun
  obtain ⟨m, rfl⟩ : ∃ m, n = m + 1 + xs.length := ⟨n - 1 - xs.length, by omega⟩
  have hw := precedes_grow.walk
  unfold Parser.parseUntil at hrun
  rw [h] at hrun
  obtain ⟨r, v, hturn, hrest⟩ := of_bind_ok hrun
  change (if (t.stream.check close || t.stream.atEof) = true then Pure.pure (Turn.done ([] ++ xs))
    else el >>= fun element => Pure.pure (Turn.again ([] ++ xs ++ [element])) : ParserM _) t = _ at hturn
  have hcheck : t.stream.check close = false := decide_eq_false hclose
  have hend : t.stream.atEof = false := decide_eq_false heof
  rw [hcheck, hend, if_neg (by decide)] at hturn
  obtain ⟨x, v', hx, hdone⟩ := of_bind_ok hturn
  cases hdone
  change parseUntil m ([] ++ xs ++ [x]) close el v = _ at hrest
  have hloop : v.Precedes u := hw.parseUntil m _ close hel _ _ _ hrest
  exact (hrep x v hx).trans_le hloop.errors.length_le

/-- A block with a statement that reports. -/
theorem block_reports (hopen : s.stream.peek 0 = .l_brace)
    (hrep : ∀ ys u, parseUntil n [] .r_brace (run n .stmt) s.moved = .ok (ys, u) →
      s.errors.length < u.errors.length) :
    ∀ x u, run (n + 1) .block s = .ok (x, u) → s.errors.length < u.errors.length := by
  intro x u hrun
  have hw := precedes_grow.walk
  obtain ⟨tok, t, hexpect, hrun⟩ := of_bind_ok hrun
  obtain ⟨-, rfl⟩ := (expect_hit hopen (by decide)).of_eq hexpect
  obtain ⟨ys, v, hloop, hrest⟩ := of_bind_ok hrun
  have hclose : v.Precedes u := hw.bind (hw.expect _ _ _) (fun _ => hw.alloc _ _ _ _ _) _ _ _ hrest
  exact (hrep ys v hloop).trans_le hclose.errors.length_le

/-- A `match` before a token that is no semicolon is reported. -/
theorem BlockLike.match_reports (h : BlockLike s i j) (hs : s.Valid) (hmatch : s.kindAt i = .kw_match)
    (hends : Ends (s.kindAt j) 0) (hsemi : s.kindAt j ≠ .semi) : ∃ d, ∀ n ≥ d, ∀ t, t.Valid →
      s.Shares t → t.stream.cursor = i → ∀ x u, run (n + 1) .stmt t = .ok (x, u) →
        t.errors.length < u.errors.length := by
  have hi : i < s.stream.tokens.length := lt_of_kindAt (by rw [hmatch]; decide)
  obtain ⟨d, hd⟩ := (h.expr hends).reads hs hi.le le_rfl
  refine ⟨max d s.depth, fun n hn t ht hsh hcur x u hrun => ?_⟩
  have hw := precedes_grow.walk
  obtain ⟨y, v, hy, -, hext, -, hj, herr⟩ := hd n (le_of_max_le_left hn) t ht hsh hcur
  have hy : run n (.expr 0) t = .ok (y, v) := hy
  have hpeek : t.stream.peek 0 = .kw_match := (PState.peek_of_shares hsh hcur).trans hmatch
  rw [show run (n + 1) .stmt t = parseExprStmt (run n) t from parseStmt_match hpeek] at hrun
  obtain ⟨y', v', hy', hrun⟩ := of_bind_ok hrun
  rw [hy] at hy'
  cases hy'
  obtain ⟨kind, v', hkind, hthen⟩ := of_bind_ok hrun
  have hsound : v.Sound y := @PState.Valid.not_error _ _ _ (.expr 0) _ ht le_rfl
    (by rw [hsh.depth]; exact (le_max_right _ _).trans hn) hy herr
  obtain ⟨hne, rfl⟩ := kindOf_sound hsound hkind
  rw [if_neg hne] at hthen
  obtain ⟨_, w, hreq, hdone⟩ := of_bind_ok hthen
  cases hdone
  have hgrow := (hw.requireSemi _ _ _ _ _ _ hreq).errors
  by_contra hlt
  have hlen := hgrow.length_le
  have hsame := (hgrow.eq_of_length (by rw [herr] at hlen ⊢; omega)).symm
  exact hsemi (by rw [← PState.peek_of_shares (hsh.trans hext.shares) hj]
                  exact (requireSemi_silent hreq hsame).1)

/-! ### Blocks with the semicolon and without it -/

/-- A block at the cursor with a block-like expression and, behind token `j`, statements without
errors, the first of which starts with no operator. -/
structure BlockLikeFirst (s : PState) (j e m : ℕ) : Prop where
  opens : s.stream.peek 0 = .l_brace
  first : BlockLike s (s.stream.cursor + 1) j
  rest : Statements s j m e
  closes : s.kindAt e = .r_brace
  ends : Ends (s.kindAt j) 0

/-- Both blocks are parsed without errors, into the same statements. -/
def SemicolonOptional (s₁ s₂ : PState) (r₁ r₂ : NodeIndex × PState) : Prop :=
  r₁.2.errors = s₁.errors ∧ r₂.2.errors = s₂.errors ∧
    ∃ tr, r₁.2.Denotes r₁.1 tr ∧ r₂.2.Denotes r₂.1 tr

theorem BlockLikeFirst.next (h : BlockLikeFirst s j e m) :
    s.kindAt j = .r_brace ∨ startsStmt (s.kindAt j) = true := by
  cases h.rest with
  | nil => exact Or.inl h.closes
  | cons hclean _ => exact Or.inr hclean.stmt_starts

theorem BlockLikeFirst.next_ne (h : BlockLikeFirst s j e m) :
    s.kindAt j ≠ .semi ∧ s.kindAt j ≠ .kw_else ∧ s.kindAt j ≠ .eof := by
  refine ⟨?_, ?_, ?_⟩ <;> intro hk <;> rcases h.next with h | h <;> rw [hk] at h <;> cases h

/-- Without the semicolon `match` is reported. -/
theorem BlockLikeFirst.match_reports (h : BlockLikeFirst s j e m) (hs : s.Valid)
    (hmatch : s.kindAt (s.stream.cursor + 1) = .kw_match) : ∃ d, ∀ n ≥ d, ∀ x u,
      run n .block s = .ok (x, u) → s.errors.length < u.errors.length := by
  obtain ⟨d, hd⟩ := h.first.match_reports hs hmatch h.ends h.next_ne.1
  refine ⟨d + 2, fun n hn => ?_⟩
  obtain ⟨n, rfl⟩ : ∃ m, n = m + 1 + 1 := ⟨n - 2, by omega⟩
  have hmoved := hs.extends_moved h.opens (by decide)
  have hpeek : s.moved.stream.peek 0 = .kw_match := hmatch
  refine block_reports h.opens fun ys u hrun => ?_
  exact (Gathers.nil s.moved).reports ((precedes_grow.walk.run (n + 1)).stmt)
    (by rw [hpeek]; decide) (by rw [hpeek]; decide)
    (hd n (by omega) s.moved hmoved.valid hmoved.shares rfl) (Nat.succ_pos _) ys u hrun

/-- With the semicolon every other block-like statement is reported. -/
theorem BlockLikeFirst.semi_reports (h : BlockLikeFirst s₁ j e m) (hs₁ : s₁.Valid) (hs₂ : s₂.Valid)
    (hcur : s₂.stream.cursor = s₁.stream.cursor) (hins : Inserted s₁ s₂ j 1)
    (hsemi : s₂.kindAt j = .semi) (hmatch : s₁.kindAt (s₁.stream.cursor + 1) ≠ .kw_match) :
    ∃ d, ∀ n ≥ d, ∀ x u, run n .block s₂ = .ok (x, u) → s₂.errors.length < u.errors.length := by
  have hclean := h.first.stmt hmatch
  have hforward := hclean.stmt_forward hs₁
  obtain ⟨d, hd⟩ := hins.stmt_before hs₁ hclean le_rfl h.next_ne.2.1 (by rw [hsemi]; decide)
  refine ⟨max d 2 + 1, fun n hn => ?_⟩
  obtain ⟨n, rfl⟩ : ∃ m, n = m + 1 + 1 := ⟨n - 2, by omega⟩
  have hopen₂ : s₂.stream.peek 0 = .l_brace := by
    rw [PState.peek_eq_kindAt, hcur, hins.before _ (by omega)]
    exact h.opens
  have hmoved₁ := hs₁.extends_moved h.opens (by decide)
  have hmoved₂ := hs₂.extends_moved hopen₂ (by decide)
  obtain ⟨-, -, x, v, tr, -, hrun, -, hext, hv, herr, -⟩ := hd (n + 1) (by omega) s₁.moved s₂.moved
    hmoved₁.valid hmoved₂.valid hmoved₁.shares hmoved₂.shares rfl (congrArg (· + 1) hcur)
  have hstart : s₂.moved.stream.peek 0 = s₁.kindAt (s₁.stream.cursor + 1) := by
    rw [PState.peek_of_shares hmoved₂.shares (congrArg (· + 1) hcur), hins.before _ hforward]
  have hstarts := hclean.stmt_starts
  have hnext : v.stream.peek 0 = .semi := by
    rw [PState.peek_of_shares (hmoved₂.trans hext).shares hv, hsemi]
  refine block_reports hopen₂ fun ys u hloop => ?_
  refine lt_of_eq_of_lt (congrArg List.length herr).symm ?_
  refine (Gathers.one ?_ ?_ hrun).reports ((precedes_grow.walk.run (n + 1)).stmt)
    (by rw [hnext]; decide) (by rw [hnext]; decide) ?_
    (by rw [List.length_singleton]; omega) ys u hloop
  · rw [hstart]
    intro hk
    rw [hk] at hstarts
    cases hstarts
  · rw [hstart]
    exact hclean.stmt_not_eof
  · intro x u hbad
    have hbad : parseStmt n (run n) v = .ok (x, u) := hbad
    rw [parseStmt_bad (by rw [hnext]; rfl)] at hbad
    exact Reports.parseBadStmt _ _ _ _ hbad

/-- The semicolon is optional in no case. -/
theorem semicolon_not_optional (hs₁ : s₁.Valid) (hs₂ : s₂.Valid)
    (hcur : s₂.stream.cursor = s₁.stream.cursor) (h : BlockLikeFirst s₁ j e m)
    (hins : Inserted s₁ s₂ j 1) (hsemi : s₂.kindAt j = .semi) : ∃ d, ∀ n ≥ d, ∃ r₁ r₂,
      run n .block s₁ = .ok r₁ ∧ run n .block s₂ = .ok r₂ ∧ ¬ SemicolonOptional s₁ s₂ r₁ r₂ := by
  have hruns : ∀ s : PState, s.Valid → ∀ n ≥ s.depth, ∃ r, run n .block s = .ok r := by
    intro s hs n hn
    obtain ⟨x, t, hrun, -⟩ := hs.runs (show Starts (s.stream.peek 0) .block from trivial) hn
    exact ⟨_, hrun⟩
  by_cases hmatch : s₁.kindAt (s₁.stream.cursor + 1) = .kw_match
  · obtain ⟨d, hd⟩ := h.match_reports hs₁ hmatch
    refine ⟨max d (max s₁.depth s₂.depth), fun n hn => ?_⟩
    obtain ⟨r₁, hr₁⟩ := hruns s₁ hs₁ n (by omega)
    obtain ⟨r₂, hr₂⟩ := hruns s₂ hs₂ n (by omega)
    refine ⟨r₁, r₂, hr₁, hr₂, fun hopt => ?_⟩
    exact (hd n (by omega) _ _ hr₁).ne (congrArg List.length hopt.1).symm
  · obtain ⟨d, hd⟩ := h.semi_reports hs₁ hs₂ hcur hins hsemi hmatch
    refine ⟨max d (max s₁.depth s₂.depth), fun n hn => ?_⟩
    obtain ⟨r₁, hr₁⟩ := hruns s₁ hs₁ n (by omega)
    obtain ⟨r₂, hr₂⟩ := hruns s₂ hs₂ n (by omega)
    refine ⟨r₁, r₂, hr₁, hr₂, fun hopt => ?_⟩
    exact (hd n (by omega) _ _ hr₂).ne (congrArg List.length hopt.2.1).symm

/-! ### Blocks that start with `{}` and `match true {}` -/

theorem emptyBlock_blockLike (hs : s.Valid) (hopen : s.kindAt i = .l_brace)
    (hclose : s.kindAt (i + 1) = .r_brace) : BlockLike s i (i + 2) where
  starts := by
    rw [hopen]
    rfl
  clean := by
    refine ⟨2, fun n hn => ?_⟩
    obtain ⟨n, rfl⟩ : ∃ m, n = m + 1 := ⟨n - 1, by omega⟩
    have hi : i < s.stream.tokens.length := lt_of_kindAt (by rw [hopen]; decide)
    obtain ⟨t, ht, -, hcur, hparse⟩ := BlockForm.block.parses (hs.at hi.le) hopen
    have hpeek : t.stream.peek 0 = .r_brace := (PState.peek_of_shares ht.shares hcur).trans hclose
    have hblock := hparse n [] [] [] t (.nil ht.valid) hpeek (by rw [List.length_nil]; omega)
    have hkind : ((s.at i).stream.peekToken 0).tokenKind = .l_brace := (peekToken_kind _).trans hopen
    refine Yields.read rfl ?_
    rw [hkind, if_neg (by decide), if_neg (by decide)]
    refine Yields.mono hblock fun x u hu => ⟨?_, ?_⟩
    · rw [hu.1, hcur]
      rfl
    · rw [hu.2.1]
      exact List.append_nil _

/-- A literal in front of a brace. -/
theorem literal_clean (hk : s.kindAt i = .kw_true) (hnext : s.kindAt (i + 1) = .l_brace) :
    Clean s (.expr 0) i (i + 1) := by
  refine ⟨2, fun n hn => ?_⟩
  obtain ⟨n, rfl⟩ : ∃ m, n = m + 1 + 1 := ⟨n - 2, by omega⟩
  have hpeek : ((s.at i).stream.peekToken 0).tokenKind = .kw_true := (peekToken_kind _).trans hk
  refine expr_of_prefix (by omega) ?_
  unfold parsePrefixExpr
  refine Yields.read rfl ?_
  rw [hpeek, if_pos (by decide)]
  refine (advance_of_peek (by rw [show (s.at i).stream.peek 0 = _ from hk]; decide)).bind ?_
  rintro _ _ rfl
  refine ⟨_, _, rfl, ⟨rfl, rfl⟩, ?_⟩
  show Ends (s.kindAt (i + 1)) 0
  rw [hnext]
  exact ⟨rfl, by decide⟩

/-- A `match` with a scrutinee up to token `j` and no arms. -/
theorem parseMatchExpr_empty (hmatch : t.stream.peek 0 = .kw_match) (hn : 1 ≤ n)
    (hvalue : Yields (parseHeaderExpr (run n))
      (fun _ v => s.Shares v ∧ v.stream.cursor = j ∧ v.errors = t.errors) t.moved)
    (hopen : s.kindAt j = .l_brace) (hclose : s.kindAt (j + 1) = .r_brace) :
    Yields (parseMatchExpr n (run n))
      (fun _ u => u.stream.cursor = j + 2 ∧ u.errors = t.errors) t := by
  unfold parseMatchExpr
  refine (expect_hit hmatch (by decide)).bind ?_
  rintro _ _ ⟨-, rfl⟩
  refine hvalue.bind ?_
  rintro x v ⟨hsh, hj, herr⟩
  refine (expect_hit ((PState.peek_of_shares hsh hj).trans hopen) (by decide)).bind ?_
  rintro _ _ ⟨-, rfl⟩
  have hmoved : s.Shares v.moved := ⟨hsh.tokens, hsh.source, hsh.lit⟩
  have hend := (PState.peek_of_shares hmoved (congrArg (· + 1) hj)).trans hclose
  have hnil : Gathers .r_brace (parseMatchArm (run n)) v.moved [] v.moved := .nil _
  have harms := hnil.done hend (show [].length < n by rw [List.length_nil]; omega)
  refine Yields.bind (R := fun _ w => w = v.moved) ⟨_, _, harms, rfl⟩ ?_
  rintro arms _ rfl
  refine (expect_hit hend (by decide)).bind ?_
  rintro _ _ ⟨-, rfl⟩
  refine ⟨_, _, rfl, ?_, herr⟩
  show v.stream.cursor + 1 + 1 = _
  rw [hj]

theorem emptyMatch_blockLike (hs : s.Valid) (hmatch : s.kindAt i = .kw_match)
    (hvalue : Clean (s.allow false) (.expr 0) (i + 1) j) (hopen : s.kindAt j = .l_brace)
    (hclose : s.kindAt (j + 1) = .r_brace) : BlockLike s i (j + 2) where
  starts := by
    rw [hmatch]
    rfl
  clean := by
    have hi : i < s.stream.tokens.length := lt_of_kindAt (by rw [hmatch]; decide)
    obtain ⟨d, hd⟩ := hvalue.reads (hs.allow false) hi le_rfl
    refine ⟨d + 1, fun n hn => ?_⟩
    have hkind : ((s.at i).stream.peekToken 0).tokenKind = .kw_match :=
      (peekToken_kind _).trans hmatch
    have hmoved := (hs.at hi.le).extends_moved hmatch (by decide)
    have hlit := hd n (by omega) ((s.at i).moved.allow false) (hmoved.valid.allow false)
      ⟨rfl, rfl, rfl⟩ rfl
    refine Yields.read rfl ?_
    rw [hkind, if_neg (by decide), if_neg (by decide)]
    refine parseMatchExpr_empty (s := s) (t := s.at i) hmatch (by omega) ?_ hopen hclose
    exact Yields.withStructLit
      (hlit.mono fun x v hv => ⟨⟨hv.2.1.tokens, hv.2.1.source, rfl⟩, hv.2.2.2⟩)

/-- `break;` behind tokens in a block. -/
def breakBehind (ks : List Token.Kind) : PState :=
  let tokens := .l_brace :: ks ++ [.kw_break, .semi, .r_brace]
  rowOf tokens.length fun i => tokens.getD i .eof

theorem breakBehind_inserted (ks : List Token.Kind) :
    Inserted (breakBehind ks) (breakBehind (ks ++ [.semi])) (ks.length + 1) 1 := by
  refine rowOf_inserted (by simp [Nat.add_assoc]) (by simp) (fun i hi => ?_) fun i hi _ => ?_
  · have hi : i < (Token.Kind.l_brace :: ks).length := by simpa using hi
    rw [List.getD_eq_getElem?_getD, List.getD_eq_getElem?_getD, List.getElem?_append_left hi,
      ← List.cons_append, List.append_assoc, List.getElem?_append_left hi]
  · have hi : (Token.Kind.l_brace :: ks).length ≤ i := by simpa using hi
    rw [List.getD_eq_getElem?_getD, List.getD_eq_getElem?_getD, List.getElem?_append_right hi,
      ← List.cons_append, List.append_assoc, List.getElem?_append_right (by omega),
      Nat.sub_add_comm hi]
    rfl

/-- `{{} break;}` -/
def blockBreak : PState := breakBehind [.l_brace, .r_brace]

/-- `{{}; break;}` -/
def blockSemiBreak : PState := breakBehind [.l_brace, .r_brace, .semi]

/-- `{match true {} break;}` -/
def matchBreak : PState := breakBehind [.kw_match, .kw_true, .l_brace, .r_brace]

/-- `{match true {}; break;}` -/
def matchSemiBreak : PState := breakBehind [.kw_match, .kw_true, .l_brace, .r_brace, .semi]

theorem blockBreak_first : BlockLikeFirst blockBreak 3 5 1 where
  opens := rfl
  first := emptyBlock_blockLike (rowOf_valid _ _) rfl rfl
  rest := .cons (break_clean rfl rfl) (.nil 5)
  closes := rfl
  ends := ⟨rfl, by decide⟩

theorem matchBreak_first : BlockLikeFirst matchBreak 5 7 1 where
  opens := rfl
  first := emptyMatch_blockLike (rowOf_valid _ _) rfl (literal_clean rfl rfl) rfl rfl
  rest := .cons (break_clean rfl rfl) (.nil 7)
  closes := rfl
  ends := ⟨rfl, by decide⟩

theorem semicolon_not_optional_break :
    (∃ d, ∀ n ≥ d, ∃ r₁ r₂, run n .block blockBreak = .ok r₁ ∧
      run n .block blockSemiBreak = .ok r₂ ∧ ¬ SemicolonOptional blockBreak blockSemiBreak r₁ r₂) ∧
    ∃ d, ∀ n ≥ d, ∃ r₁ r₂, run n .block matchBreak = .ok r₁ ∧
      run n .block matchSemiBreak = .ok r₂ ∧ ¬ SemicolonOptional matchBreak matchSemiBreak r₁ r₂ :=
  ⟨semicolon_not_optional (rowOf_valid _ _) (rowOf_valid _ _) rfl blockBreak_first
    (breakBehind_inserted _) rfl,
  semicolon_not_optional (rowOf_valid _ _) (rowOf_valid _ _) rfl matchBreak_first
    (breakBehind_inserted _) rfl⟩

/-- The state at the beginning of `{{}}`. -/
def nestedBlock : PState := initialState (.fresh [byteToken .l_brace 0, byteToken .l_brace 1,
  byteToken .r_brace 2, byteToken .r_brace 3] [] []) .new

/-- The state at the beginning of `{{};}`. -/
def nestedBlockSemi : PState := initialState (.fresh [byteToken .l_brace 0, byteToken .l_brace 1,
  byteToken .r_brace 2, byteToken .semi 3, byteToken .r_brace 4] [] []) .new

theorem nestedBlock_first : BlockLikeFirst nestedBlock 3 3 0 where
  opens := rfl
  first := emptyBlock_blockLike (.initial _ _ _ _) rfl rfl
  rest := .nil 3
  closes := rfl
  ends := ⟨rfl, by decide⟩

theorem nestedBlock_inserted : Inserted nestedBlock nestedBlockSemi 3 1 where
  inside := by decide
  length := rfl
  lit := rfl
  before i hi := by interval_cases i <;> rfl
  beforeText i j hij hj := by
    show Eter.textOf [] _ = Eter.textOf [] _
    simp [Eter.textOf, substr]
  behind i hi hlt := by
    have hlt : i < 4 := hlt
    obtain rfl : i = 3 := by omega
    rfl
  behindText i j _ _ _ := by
    show Eter.textOf [] _ = Eter.textOf [] _
    simp [Eter.textOf, substr]

theorem nested_semicolon_reported : ¬ ∀ s₁ s₂ j e m, s₁.Valid → s₂.Valid →
    s₂.stream.cursor = s₁.stream.cursor → BlockLikeFirst s₁ j e m → Inserted s₁ s₂ j 1 →
    s₂.kindAt j = .semi → ∃ d, ∀ n ≥ d, ∃ r₁ r₂, run n .block s₁ = .ok r₁ ∧
      run n .block s₂ = .ok r₂ ∧ SemicolonOptional s₁ s₂ r₁ r₂ := by
  intro hclaim
  have hvalid : nestedBlock.Valid := .initial _ _ _ _
  have hvalid' : nestedBlockSemi.Valid := .initial _ _ _ _
  obtain ⟨d, hd⟩ := hclaim _ _ _ _ _ hvalid hvalid' rfl nestedBlock_first nestedBlock_inserted rfl
  obtain ⟨d', hd'⟩ := nestedBlock_first.semi_reports hvalid hvalid' rfl nestedBlock_inserted rfl
    (by decide)
  obtain ⟨r₁, r₂, -, hr₂, -, hsilent, -⟩ := hd (max d d') (le_max_left _ _)
  exact (hd' (max d d') (le_max_right _ _) _ _ hr₂).ne (congrArg List.length hsilent).symm

end Eter.Parser
