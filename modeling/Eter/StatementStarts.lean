import Eter.StatementEnds

/-!
# The starts of statements

A statement with a keyword consumes it first, so the token before the statement does not matter.
-/

namespace Eter.Parser
open Stateful

variable {q p n : ℕ} {ts ts' : List Token} {s t u : PState} {α β : Type} {m : ParserM α}
  {f : α → ParserM β} {k : Token.Kind} {d : DiagID} {context : String} {rec : Rec}

/-- From the start of the window on, the computation consumes a token unless it reports, and it does
not depend on the token before. -/
structure Opens (q p : ℕ) (ts ts' : List Token) (s : PState) {α : Type} (m : ParserM α) : Prop where
  leads : Leads PState.Precedes m
  run : ∀ a t, m s = .ok (a, t) → t.errors = s.errors → t.stream.cursor < p →
    m (s.over ts') = .ok (a, t.over ts') ∧ q < t.stream.cursor

section Openings

variable (hw : Window q p ts ts') (hts : s.stream.tokens = ts) (hq : s.stream.cursor = q)
include hts

theorem Opens.first (hm : Opens q p ts ts' s m) (hf : ∀ a, Local q p ts ts' (f a)) :
    Opens q p ts ts' s (m >>= f) where
  leads := precedes_grow.bind hm.leads fun a => (hf a).leads
  run b u hb herr hlt := by
    obtain ⟨a, t, ha, hb⟩ := of_bind_ok hb
    have hst := hm.leads s a t ha
    have htu := (hf a).leads t b u hb
    obtain ⟨herr, -⟩ := hst.silent htu herr
    obtain ⟨ha', hmove⟩ := hm.run a t ha herr (htu.forward.trans_lt hlt)
    have hb' := (hf a).run t b u (hst.tokens.trans hts) (Or.inr hmove) hb hlt
    refine ⟨?_, hmove.trans_le htu.forward⟩
    show (m (s.over ts') >>= fun r => f r.1 r.2) = _
    rw [ha']
    exact hb'

include hw hq

theorem Opens.peekToken {g : Token → ParserM α} (hg : Opens q p ts ts' s (g (s.stream.peekToken 0)))
    (hl : Leads PState.Precedes (Parser.peekToken >>= g)) :
    Opens q p ts ts' s (Parser.peekToken >>= g) where
  leads := hl
  run a t hm herr hlt := by
    have hlt' : s.stream.cursor < p := ((hl s a t hm).forward).trans_lt hlt
    have hrun := hg.run a t hm herr hlt
    rw [← hw.peekToken hts hlt' hq.ge] at hrun
    exact hrun

theorem Opens.advance : Opens q p ts ts' s advance where
  leads := precedes_grow.walk.advance
  run a t hm _ hlt := by
    have hle := (precedes_grow.walk.advance s a t hm).forward
    have hlt' : s.stream.cursor < p := hle.trans_lt hlt
    obtain ⟨hover, hmoved⟩ := hw.advance hts hlt' hq.ge
    cases hm
    rw [hmoved]
    refine ⟨?_, ?_⟩
    · show Except.ok ((s.over ts').stream.advance.1, _) = _
      rw [hover]
      rfl
    · rw [← hq]
      exact Nat.lt_succ_self _

theorem Opens.expect (hk : k ≠ .eof) : Opens q p ts ts' s (expect k d context) where
  leads := precedes_grow.walk.expect k d context
  run tok t hm herr hlt := by
    obtain ⟨hpeek, rfl, rfl⟩ := expect_silent hm hk herr
    have hlt' : s.stream.cursor < p := (Nat.lt_succ_self _).trans hlt
    have hpeek' : (s.over ts').stream.peek 0 = k := by rw [hw.peek hts hlt' hq.ge, hpeek]
    obtain ⟨tok, t, htok, rfl, rfl⟩ := @expect_hit (s.over ts') k hpeek' hk d context
    refine ⟨?_, hq ▸ Nat.lt_succ_self _⟩
    rw [htok, hw.peekToken hts hlt' hq.ge]
    rfl

end Openings

section Productions

variable (hw : Window q p ts ts') (hts : s.stream.tokens = ts) (hq : s.stream.cursor = q)
  (hrec : WalkRec (fun _ m => Local q p ts ts' m) rec)
include hw hts hq hrec

theorem Opens.parseLetStmt : Opens q p ts ts' s (parseLetStmt rec) :=
  have h := local_walk hw
  .first hts (.expect hw hts hq (by decide)) fun _ => h.bind h.parseRegime fun _ =>
    h.bind (h.expectName _ _) fun _ => h.bind (h.optional _ hrec.type) fun _ =>
      h.bind (h.optional _ (hrec.expr _)) fun _ => h.bind (h.closeLet _) fun _ =>
        h.bind h.previous fun _ => h.alloc _ _ _ _ _

theorem Opens.parseIfExpr : Opens q p ts ts' s (parseIfExpr rec) :=
  have h := local_walk hw
  .first hts (.expect hw hts hq (by decide)) fun _ => h.bind (h.parseHeaderExpr hrec) fun _ =>
    h.bind hrec.block fun _ => h.bind (h.parseElse hrec) fun _ => h.bind h.previous fun _ =>
      h.alloc _ _ _ _ _

theorem Opens.parseWhileStmt : Opens q p ts ts' s (parseWhileStmt rec) :=
  have h := local_walk hw
  .first hts (.expect hw hts hq (by decide)) fun _ => h.bind (h.parseHeaderExpr hrec) fun _ =>
    h.bind hrec.block fun _ => h.bind h.previous fun _ => h.alloc _ _ _ _ _

theorem Opens.parseForStmt : Opens q p ts ts' s (parseForStmt rec) :=
  have h := local_walk hw
  .first hts (.expect hw hts hq (by decide)) fun _ => h.bind h.parseRegime fun _ =>
    h.bind (h.expectName _ _) fun _ => h.bind (h.expect _ _ _) fun _ =>
      h.bind (h.parseHeaderExpr hrec) fun _ => h.bind hrec.block fun _ =>
        h.bind (h.spanOf _) fun _ => h.alloc _ _ _ _ _

theorem Opens.parseRetStmt : Opens q p ts ts' s (parseRetStmt rec) :=
  have h := local_walk hw
  .first hts (.expect hw hts hq (by decide)) fun _ => h.bind (hrec.expr _) fun _ =>
    h.bind (h.expect _ _ _) fun _ => h.alloc _ _ _ _ _

theorem Opens.parseUnsafeBlock : Opens q p ts ts' s (parseUnsafeBlock n rec) :=
  have h := local_walk hw
  .first hts (.expect hw hts hq (by decide)) fun _ => h.bind h.openUnsafe fun _ =>
    h.bind (h.parseUntil n [] _ hrec.stmt) fun _ => h.bind (h.expect _ _ _) fun _ =>
      h.alloc _ _ _ _ _

theorem Opens.parseMatchExpr : Opens q p ts ts' s (parseMatchExpr n rec) :=
  have h := local_walk hw
  .first hts (.expect hw hts hq (by decide)) fun _ => h.bind (h.parseHeaderExpr hrec) fun _ =>
    h.bind (h.expect _ _ _) fun _ => h.bind (h.parseUntil n [] _ (h.parseMatchArm hrec)) fun _ =>
      h.bind (h.expect _ _ _) fun _ => h.alloc _ _ _ _ _

omit hrec in
theorem Opens.parseJumpStmt (kind : NodeKind) : Opens q p ts ts' s (parseJumpStmt kind) :=
  have h := local_walk hw
  .first hts (.advance hw hts hq) fun _ => h.bind (h.expect _ _ _) fun _ => h.allocLeaf _ _ _

end Productions

def isStatementKeyword (k : Token.Kind) : Bool :=
  k = .kw_let || k = .kw_if || k = .kw_while || k = .kw_for || k = .kw_match || k = .kw_ret ||
  k = .kw_break || k = .kw_continue || k = .kw_unsafe_

/-- A statement with a keyword does not depend on the token before it. -/
theorem stmt_opens (hw : Window q p ts ts') (hts : s.stream.tokens = ts) (hq : s.stream.cursor = q)
    (hk : isStatementKeyword (s.stream.peek 0) = true) (n : ℕ) :
    Opens q p ts ts' s (Parser.run (n + 1 + 1) .stmt) := by
  have hl := local_walk hw
  have hrec := hl.run (n + 1)
  have hp := precedes_grow.walk
  have hmatch : s.stream.peek 0 = .kw_match → Opens q p ts ts' s (Parser.run (n + 1) (.expr 0)) := by
    intro hk
    refine .first hts ?_ fun _ => hl.iterate (hl.infixTurn (hl.run n) 0) n _
    refine .peekToken hw hts hq ?_ (hp.parsePrefixExpr (hp.run n))
    rw [peekToken_kind, hk]
    exact .parseMatchExpr hw hts hq (hl.run n)
  refine .peekToken hw hts hq ?_ (hp.parseStmt (hp.run (n + 1)))
  rw [peekToken_kind]
  have hcases : s.stream.peek 0 = .kw_let ∨ s.stream.peek 0 = .kw_if ∨ s.stream.peek 0 = .kw_while ∨
      s.stream.peek 0 = .kw_for ∨ s.stream.peek 0 = .kw_match ∨ s.stream.peek 0 = .kw_ret ∨
      s.stream.peek 0 = .kw_break ∨ s.stream.peek 0 = .kw_continue ∨
      s.stream.peek 0 = .kw_unsafe_ := by
    simpa [isStatementKeyword, or_assoc] using hk
  rcases hcases with hk | hk | hk | hk | hk | hk | hk | hk | hk <;> rw [hk]
  · exact .parseLetStmt hw hts hq hrec
  · exact .parseIfExpr hw hts hq (hl.run n)
  · exact .parseWhileStmt hw hts hq hrec
  · exact .parseForStmt hw hts hq hrec
  · refine .first hts (hmatch hk) fun _ => hl.bind (hl.kindOf _) fun _ => Local.ite ?_ ?_
    · exact hl.bind hl.synchronize fun _ => hl.pure _
    · exact hl.bind (hl.requireSemi _ _ _) fun _ => hl.pure _
  · exact .parseRetStmt hw hts hq hrec
  · exact .parseJumpStmt hw hts hq _
  · exact .parseJumpStmt hw hts hq _
  · exact .parseUnsafeBlock hw hts hq hrec

/-- A statement inside the window, with a keyword if the window starts with it. -/
theorem stmt_inside {a : NodeIndex} (hw : Window q p ts ts') (hts : s.stream.tokens = ts)
    (hq : q ≤ s.stream.cursor)
    (hk : s.stream.cursor = q → isStatementKeyword (s.stream.peek 0) = true)
    (hrun : Parser.run (n + 1 + 1) .stmt s = .ok (a, t)) (herr : t.errors = s.errors)
    (hlt : t.stream.cursor < p) : Parser.run (n + 1 + 1) .stmt (s.over ts') = .ok (a, t.over ts') := by
  rcases Nat.eq_or_lt_of_le hq with heq | hq
  · exact ((stmt_opens hw hts heq.symm (hk heq.symm) n).run a t hrun herr hlt).1
  · exact ((local_walk hw).run (n + 1 + 1)).stmt.run s a t hts (Or.inr hq) hrun hlt

end Eter.Parser
