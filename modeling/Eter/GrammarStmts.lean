import Eter.GrammarOperators

/-!
# Blocks and statements are read
-/

namespace Eter.Parser
open Stateful NodePool

variable {α : Type} {st : TokenStream} {lit : Bool} {s t : PState} {n e i j k l : ℕ}
  {names : List (InternedStr × Bytes)} {xs : List NodeIndex} {cond body tr tr' : SyntaxTree}
  {ts ts' : List SyntaxTree} {mark : Token.Kind} {r : Regime} {Q : α → PState → Prop}
  {p : ℕ → ParserM NodeIndex}

def blockParser (n : ℕ) : ParserM NodeIndex := run n .block

def ifParser (n : ℕ) : ParserM NodeIndex := run n .ifExpr

def stmtParser (n : ℕ) : ParserM NodeIndex := run n .stmt

def whileParser (n : ℕ) : ParserM NodeIndex := parseWhileStmt (run n)

def matchParser (n : ℕ) : ParserM NodeIndex := parseMatchExpr n (run n)

def unsafeParser (n : ℕ) : ParserM NodeIndex := parseUnsafeBlock n (run n)

def armParser (n : ℕ) : ParserM NodeIndex := parseMatchArm (run n)

/-- What stands behind `else`. -/
def branchParser (n : ℕ) : ParserM NodeIndex := do
  if ← check .kw_if then run n .ifExpr else run n .block

/-! ### Blocks -/

theorem reads_block (hopen : st.kindAt i = .l_brace)
    (hstmts : SeqOf (Element st lit stmtParser 1) (i + 1) j ts) (hle : i + 1 ≤ j)
    (hclose : st.kindAt j = .r_brace) :
    Runs st lit blockParser 0 i (j + 1) (.node .BlockExpr 0 none 0 ts) := by
  intro n hn s hs
  obtain ⟨n, rfl⟩ : ∃ n', n = n' + 1 := ⟨n - 1, by omega⟩
  show Yields (parseBlockExpr n (run n)) _ s
  unfold parseBlockExpr
  refine hs.gathered.expect hopen (by decide) fun t₁ h₁ => ?_
  refine h₁.parseUntil hstmts rfl hclose rfl (by omega) (by omega) fun ys t₂ h₂ => ?_
  exact h₂.expect hclose (by decide) fun t₃ h₃ => h₃.alloc (.plain _)

theorem reads_unsafeBlock (hword : st.kindAt i = .kw_unsafe_) (hopen : st.kindAt (i + 1) = .l_brace)
    (hstmts : SeqOf (Element st lit stmtParser 1) (i + 2) j ts) (hle : i + 2 ≤ j)
    (hclose : st.kindAt j = .r_brace) :
    Runs st lit unsafeParser 0 i (j + 1) (.node .UnsafeBlock 0 none 0 ts) := by
  intro n hn s hs
  show Yields (parseUnsafeBlock n (run n)) _ s
  unfold parseUnsafeBlock
  refine hs.gathered.expect hword (by decide) fun t₁ h₁ => ?_
  unfold openUnsafe
  rw [bind_assoc]
  refine h₁.consume_hit hopen (by decide) fun t₂ h₂ => ?_
  rw [if_pos rfl, pure_bind]
  refine h₂.parseUntil hstmts rfl hclose rfl (by omega) (by omega) fun ys t₃ h₃ => ?_
  exact h₃.expect hclose (by decide) fun t₄ h₄ => h₄.alloc (.plain _)

/-- The expression of a header. -/
theorem Gathered.header {f : NodeIndex → ParserM α} (h : Gathered st lit s j names xs ts t)
    (hr : Element st false exprParser 1 j k tr) (hn : 4 * (k - j) + 1 ≤ n)
    (hf : ∀ x u, Gathered st lit s k names (xs ++ [x]) (ts ++ [tr]) u → Yields (f x) Q u) :
    Yields (parseHeaderExpr (run n) >>= f) Q t := by
  unfold parseHeaderExpr
  refine h.within (g := fun x => [x]) (fun t' ht' => ?_) hf
  exact (hr.runs n hn t' ht').mono fun x u hx => ht'.gathered.concat hx

/-! ### What may stand behind a token -/

/-- Nothing, or the token and an element. -/
def AfterOf (st : TokenStream) (mark : Token.Kind) (E : ℕ → ℕ → SyntaxTree → Prop) (j k : ℕ)
    (ts : List SyntaxTree) : Prop :=
  (st.kindAt j ≠ mark ∧ k = j ∧ ts = []) ∨
    ∃ tr, st.kindAt j = mark ∧ E (j + 1) k tr ∧ ts = [tr]

theorem AfterOf.le (h : AfterOf st mark (Element st lit p e) j k ts) : j ≤ k := by
  rcases h with ⟨-, rfl, -⟩ | ⟨tr, -, htr, -⟩
  · exact le_rfl
  · have hlt := htr.lt
    omega

theorem AfterOf.node (h : AfterOf st mark (Element st lit p e) j k ts) : ∀ tr ∈ ts, tr.IsNode := by
  rcases h with ⟨-, -, rfl⟩ | ⟨tr, -, htr, rfl⟩
  · simp
  · simpa using htr.node

theorem Gathered.optional {m : ParserM NodeIndex} {f : List NodeIndex → ParserM α}
    (h : Gathered st lit s j names xs ts t) (ha : AfterOf st mark (Element st lit p e) j k ts')
    (hm : p n = m) (hmark : mark ≠ .eof) (hn : 4 * (k - j) + e ≤ n + 4)
    (hf : ∀ ys u, Gathered st lit s k names (xs ++ ys) (ts ++ ts') u → Yields (f ys) Q u) :
    Yields ((do if ← Parser.consume mark then return [← m] else pure []) >>= f) Q t := by
  rw [bind_assoc]
  rcases ha with ⟨hk, rfl, rfl⟩ | ⟨tr, hk, htr, rfl⟩
  · refine h.consume_miss hk ?_
    rw [if_neg Bool.false_ne_true, pure_bind]
    exact hf [] t (by simpa using h)
  · have hlt := htr.lt
    refine h.consume_hit hk hmark fun u hu => ?_
    rw [if_pos rfl, bind_assoc]
    exact hu.call htr hm (by omega) fun x v hv => hf [x] v hv

theorem parseElse_eq (n : ℕ) : parseElse (run n) = (do
    if ← check .kw_else then
      let _ ← advance
      let x ← branchParser n
      pure [x]
    else pure []) := by
  unfold parseElse branchParser
  congr 1
  funext c
  split
  · congr 1
    funext _
    rw [bind_assoc]
    congr 1
    funext c
    split <;> rfl
  · rfl

theorem reads_ifExpr (hword : st.kindAt i = .kw_if)
    (hcond : Element st false exprParser 1 (i + 1) j cond)
    (hbody : Element st lit blockParser 0 j k body)
    (helse : AfterOf st .kw_else (Element st lit branchParser 0) k l ts) :
    Runs st lit ifParser 0 i l (.node .IfExpr 0 none 0 (cond :: body :: ts)) := by
  intro n hn s hs
  have hlt := hcond.lt
  have hlt' := hbody.lt
  have hle := helse.le
  obtain ⟨n, rfl⟩ : ∃ n', n = n' + 1 := ⟨n - 1, by omega⟩
  show Yields (parseIfExpr (run n)) _ s
  unfold parseIfExpr
  refine hs.gathered.expect hword (by decide) fun t₁ h₁ => ?_
  refine h₁.header hcond (by omega) fun x t₂ h₂ => ?_
  refine h₂.call hbody rfl (by omega) fun y t₃ h₃ => ?_
  rw [parseElse_eq, bind_assoc]
  rcases helse with ⟨hk, rfl, rfl⟩ | ⟨tr, hk, htr, rfl⟩
  · refine h₃.check_miss hk ?_
    rw [if_neg Bool.false_ne_true, pure_bind]
    exact Yields.read rfl (h₃.alloc (.plain _))
  · have hlt'' := htr.lt
    refine h₃.check_hit hk ?_
    rw [if_pos rfl, bind_assoc]
    refine h₃.advance hk (by decide) fun t₄ h₄ => ?_
    rw [bind_assoc]
    refine h₄.call htr rfl (by omega) fun z t₅ h₅ => ?_
    rw [pure_bind]
    exact Yields.read rfl (h₅.alloc (.plain _))

theorem reads_ifBranch (hword : st.kindAt i = .kw_if) (h : Runs st lit ifParser 0 i j tr) :
    Runs st lit branchParser 0 i j tr := by
  intro n hn s hs
  unfold branchParser
  exact hs.gathered.check_then hword (h n hn s hs)

theorem reads_blockBranch (hopen : st.kindAt i = .l_brace) (h : Runs st lit blockParser 0 i j tr) :
    Runs st lit branchParser 0 i j tr := by
  intro n hn s hs
  unfold branchParser
  exact hs.gathered.check_else (by rw [hopen]; decide) (h n hn s hs)

theorem reads_whileStmt (hword : st.kindAt i = .kw_while)
    (hcond : Element st false exprParser 1 (i + 1) j cond)
    (hbody : Element st lit blockParser 0 j k body) :
    Runs st lit whileParser 0 i k (.node .WhileStmt 0 none 0 [cond, body]) := by
  intro n hn s hs
  have hlt := hcond.lt
  have hlt' := hbody.lt
  show Yields (parseWhileStmt (run n)) _ s
  unfold parseWhileStmt
  refine hs.gathered.expect hword (by decide) fun t₁ h₁ => ?_
  refine h₁.header hcond (by omega) fun x t₂ h₂ => ?_
  refine h₂.call hbody rfl (by omega) fun y t₃ h₃ => ?_
  exact Yields.read rfl (h₃.alloc (.plain _))

/-! ### Matches -/

theorem Gathered.closeArm {f : Unit → ParserM α} (h : Gathered st lit s k names xs ts t)
    (hf : ∀ u, Gathered st lit s (st.armEnd k) names xs ts u → Yields (f ()) Q u) :
    Yields (Parser.closeArm >>= f) Q t := by
  unfold Parser.closeArm
  unfold TokenStream.armEnd at hf
  rw [bind_assoc]
  by_cases hcomma : st.kindAt k = .comma
  · rw [if_pos (.inl hcomma)] at hf
    refine h.consume_hit hcomma (by decide) fun u hu => ?_
    rw [if_pos rfl, pure_bind]
    exact hf u hu
  · refine h.consume_miss hcomma ?_
    rw [if_neg Bool.false_ne_true, bind_assoc]
    by_cases hsemi : st.kindAt k = .semi
    · rw [if_pos (.inr hsemi)] at hf
      refine h.consume_hit hsemi (by decide) fun u hu => ?_
      rw [pure_bind]
      exact hf u hu
    · rw [if_neg (not_or.mpr ⟨hcomma, hsemi⟩)] at hf
      refine h.consume_miss hsemi ?_
      rw [pure_bind]
      exact hf t h

theorem reads_arm (hpat : Element st lit patParser 1 i j tr) (harrow : st.kindAt j = .fat_arrow)
    (hvalue : Element st lit exprParser 1 (j + 1) k tr') (hend : l = st.armEnd k) :
    Runs st lit armParser 1 i l (.node .MatchArm 0 none 0 [tr, tr']) := by
  intro n hn s hs
  subst hend
  have hlt := hpat.lt
  have hlt' := hvalue.lt
  have hle := le_armEnd st k
  show Yields (parseMatchArm (run n)) _ s
  unfold parseMatchArm
  refine hs.gathered.call hpat rfl (by omega) fun x t₁ h₁ => ?_
  refine h₁.expect harrow (by decide) fun t₂ h₂ => ?_
  refine h₂.call hvalue rfl (by omega) fun y t₃ h₃ => h₃.closeArm fun t₄ h₄ => ?_
  have hnodes : ∀ tr'' ∈ [tr] ++ [tr'], tr''.IsNode := by simpa using ⟨hpat.node, hvalue.node⟩
  refine h₄.spanOf (x := x) (by simp) hnodes fun span => ?_
  refine h₄.spanOf (x := y) (by simp) hnodes fun span' => ?_
  exact h₄.alloc (.plain _)

theorem reads_matchExpr (hword : st.kindAt i = .kw_match)
    (hscrutinee : Element st false exprParser 1 (i + 1) j tr) (hopen : st.kindAt j = .l_brace)
    (harms : SeqOf (Element st lit armParser 1) (j + 1) k ts) (hle : j + 1 ≤ k)
    (hclose : st.kindAt k = .r_brace) :
    Runs st lit matchParser 0 i (k + 1) (.node .MatchExpr 0 none 0 (tr :: ts)) := by
  intro n hn s hs
  have hlt := hscrutinee.lt
  show Yields (parseMatchExpr n (run n)) _ s
  unfold parseMatchExpr
  refine hs.gathered.expect hword (by decide) fun t₁ h₁ => ?_
  refine h₁.header hscrutinee (by omega) fun x t₂ h₂ => ?_
  refine h₂.expect hopen (by decide) fun t₃ h₃ => ?_
  refine h₃.parseUntil harms rfl hclose rfl (by omega) (by omega) fun ys t₄ h₄ => ?_
  exact h₄.expect hclose (by decide) fun t₅ h₅ => h₅.alloc (.plain _)

/-! ### Blocks as operands -/

/-- A production that the first token selects is an operand. -/
theorem operand_of_first (hr : Element st lit p 0 i j tr)
    (hp : ∀ n s, Before st lit i s → ∀ Q : NodeIndex → PState → Prop, Yields (p n) Q s →
      Yields (parsePrefixExpr n (run n)) Q s) : OperandAt st lit 120 i j tr :=
  operand_of_prefix hr.lt hr.starts hr.node fun n hn s hs _ =>
    hp n s hs _ (hr.runs n (by omega) s hs)

theorem operand_if (hword : st.kindAt i = .kw_if) (hr : Element st lit ifParser 0 i j tr) :
    OperandAt st lit 120 i j tr :=
  operand_of_first hr fun n s hs Q h => hs.prefixExpr (by rw [hword]; exact h)

theorem operand_while (hword : st.kindAt i = .kw_while) (hr : Element st lit whileParser 0 i j tr) :
    OperandAt st lit 120 i j tr :=
  operand_of_first hr fun n s hs Q h => hs.prefixExpr (by rw [hword]; exact h)

theorem operand_match (hword : st.kindAt i = .kw_match) (hr : Element st lit matchParser 0 i j tr) :
    OperandAt st lit 120 i j tr :=
  operand_of_first hr fun n s hs Q h => hs.prefixExpr (by rw [hword]; exact h)

theorem operand_unsafe (hword : st.kindAt i = .kw_unsafe_)
    (hr : Element st lit unsafeParser 0 i j tr) : OperandAt st lit 120 i j tr :=
  operand_of_first hr fun n s hs Q h => hs.prefixExpr (by rw [hword]; exact h)

theorem operand_block (hopen : st.kindAt i = .l_brace) (hr : Element st lit blockParser 0 i j tr) :
    OperandAt st lit 120 i j tr :=
  operand_of_first hr fun n s hs Q h => hs.prefixExpr (by rw [hopen]; exact h)

/-! ### Statements -/

theorem Before.stmt {Q : NodeIndex → PState → Prop} (hs : Before st lit i s)
    (h : Yields (if startsExprStmt (st.kindAt i) then parseExprStmt (run n) else
      match st.kindAt i with
      | .kw_let => parseLetStmt (run n)
      | .kw_if => run n .ifExpr
      | .kw_for => parseForStmt (run n)
      | .kw_while => parseWhileStmt (run n)
      | .l_brace => run n .block
      | .kw_ret => parseRetStmt (run n)
      | .kw_break => parseBreakStmt
      | .kw_continue => parseContinueStmt
      | .kw_unsafe_ => parseUnsafeBlock n (run n)
      | _ => parseBadStmt (st.tokenAt i)) Q s) : Yields (run (n + 1) .stmt) Q s := by
  show Yields (parseStmt n (run n)) Q s
  unfold parseStmt
  refine hs.gathered.peekToken ?_
  rwa [tokenAt_kind]

theorem reads_stmt_of (hr : Element st lit p 0 i j tr)
    (hp : ∀ n s, Before st lit i s → ∀ Q : NodeIndex → PState → Prop, Yields (p n) Q s →
      Yields (run (n + 1) .stmt) Q s) : Runs st lit stmtParser 1 i j tr := by
  intro n hn s hs
  obtain ⟨n, rfl⟩ : ∃ n', n = n' + 1 := ⟨n - 1, by omega⟩
  exact hp n s hs _ (hr.runs n (by omega) s hs)

theorem reads_ifStmt (hword : st.kindAt i = .kw_if) (hr : Element st lit ifParser 0 i j tr) :
    Runs st lit stmtParser 1 i j tr :=
  reads_stmt_of hr fun n s hs Q h => hs.stmt (by rw [hword]; exact h)

theorem reads_loopStmt (hword : st.kindAt i = .kw_while) (hr : Element st lit whileParser 0 i j tr) :
    Runs st lit stmtParser 1 i j tr :=
  reads_stmt_of hr fun n s hs Q h => hs.stmt (by rw [hword]; exact h)

theorem reads_blockStmt (hopen : st.kindAt i = .l_brace) (hr : Element st lit blockParser 0 i j tr) :
    Runs st lit stmtParser 1 i j tr :=
  reads_stmt_of hr fun n s hs Q h => hs.stmt (by rw [hopen]; exact h)

theorem reads_unsafeStmt (hword : st.kindAt i = .kw_unsafe_)
    (hr : Element st lit unsafeParser 0 i j tr) : Runs st lit stmtParser 1 i j tr :=
  reads_stmt_of hr fun n s hs Q h => hs.stmt (by rw [hword]; exact h)

theorem Gathered.requireSemi {atEnd : Bool} {context note : String} {f : Unit → ParserM α}
    (h : Gathered st lit s j names xs ts t) (hk : st.kindAt j = .semi)
    (hf : ∀ u, Gathered st lit s (j + 1) names xs ts u → Yields (f ()) Q u) :
    Yields (Parser.requireSemi atEnd context note >>= f) Q t := by
  unfold Parser.requireSemi
  rw [bind_assoc]
  refine h.consume_hit hk (by decide) fun u hu => ?_
  rw [if_pos rfl, pure_bind]
  exact hf u hu

theorem reads_exprStmt (hstart : startsExprStmt (st.kindAt i) = true)
    (hr : Element st lit exprParser 1 i j tr) (hsemi : st.kindAt j = .semi) :
    Runs st lit stmtParser 1 i (j + 1) tr := by
  intro n hn s hs
  have hlt := hr.lt
  obtain ⟨n, rfl⟩ : ∃ n', n = n' + 1 := ⟨n - 1, by omega⟩
  refine hs.stmt ?_
  rw [if_pos hstart]
  unfold parseExprStmt
  refine hs.gathered.call hr rfl (by omega) fun x t₁ h₁ => ?_
  refine h₁.kindOf (x := x) (by simp) (by simpa using hr.node) fun kind hkind => ?_
  rw [if_neg hkind]
  exact h₁.requireSemi hsemi fun t₂ h₂ => Yields.pure (h₂.result hr.node)

theorem Gathered.endsInError {f : Bool → ParserM α} (h : Gathered st lit s j names xs ts t)
    (hts : ∀ tr ∈ ts, tr.IsNode) (hf : Yields (f false) Q t) :
    Yields (Parser.endsInError xs >>= f) Q t := by
  unfold Parser.endsInError
  cases hx : xs.getLast? with
  | none => exact hf
  | some x =>
    show Yields ((Parser.kindOf x >>= _) >>= f) Q t
    rw [bind_assoc]
    refine h.kindOf (List.mem_of_getLast? hx) hts fun kind hkind => ?_
    rw [pure_bind, decide_eq_false hkind]
    exact hf

theorem reads_letStmt (hword : st.kindAt i = .kw_let) (hregime : Marks st (i + 1) j r)
    (hname : st.kindAt j = .identifier)
    (htype : AfterOf st .colon (Element st lit typeParser 1) (j + 1) k ts)
    (hinit : AfterOf st .eq (Element st lit exprParser 1) k l ts') (hsemi : st.kindAt l = .semi) :
    Runs st lit stmtParser 1 i (l + 1)
      (.node .LetStmt 0 (some (st.textAt j)) r.value (ts ++ ts')) := by
  intro n hn s hs
  have hle₁ := hregime.le
  have hle₂ := htype.le
  have hle₃ := hinit.le
  obtain ⟨n, rfl⟩ : ∃ n', n = n' + 1 := ⟨n - 1, by omega⟩
  refine hs.stmt ?_
  rw [hword]
  show Yields (parseLetStmt (run n)) _ _
  unfold parseLetStmt
  refine hs.gathered.expect hword (by decide) fun t₁ h₁ => h₁.regime hregime hname fun t₂ h₂ => ?_
  refine h₂.expectName hname fun name t₃ h₃ => ?_
  unfold parseLetType parseLetInit
  refine h₃.optional htype rfl (by decide) (by omega) fun ys t₄ h₄ => ?_
  refine h₄.optional hinit rfl (by decide) (by omega) fun zs t₅ h₅ => ?_
  unfold closeLet
  rw [bind_assoc]
  refine h₅.endsInError (fun tr htr => ?_) ?_
  · rcases List.mem_append.mp htr with htr | htr
    · exact htype.node tr (by simpa using htr)
    · exact hinit.node tr htr
  rw [if_neg Bool.false_ne_true]
  refine h₅.requireSemi hsemi fun t₆ h₆ => Yields.read rfl ?_
  exact h₆.alloc (.packed h₆.named)

theorem reads_forStmt (hword : st.kindAt i = .kw_for) (hregime : Marks st (i + 1) j r)
    (hname : st.kindAt j = .identifier) (hin : st.kindAt (j + 1) = .kw_in_)
    (hiterable : Element st false exprParser 1 (j + 2) k tr)
    (hbody : Element st lit blockParser 0 k l body) :
    Runs st lit stmtParser 1 i l (.node .ForStmt 0 (some (st.textAt j)) r.value [tr, body]) := by
  intro n hn s hs
  have hle := hregime.le
  have hlt := hiterable.lt
  have hlt' := hbody.lt
  obtain ⟨n, rfl⟩ : ∃ n', n = n' + 1 := ⟨n - 1, by omega⟩
  refine hs.stmt ?_
  rw [hword]
  show Yields (parseForStmt (run n)) _ _
  unfold parseForStmt
  refine hs.gathered.expect hword (by decide) fun t₁ h₁ => h₁.regime hregime hname fun t₂ h₂ => ?_
  refine h₂.expectName hname fun name t₃ h₃ => ?_
  refine h₃.expect hin (by decide) fun t₄ h₄ => ?_
  refine h₄.header hiterable (by omega) fun x t₅ h₅ => ?_
  refine h₅.call hbody rfl (by omega) fun y t₆ h₆ => ?_
  refine h₆.spanOf (x := y) (by simp) (by simpa using ⟨hiterable.node, hbody.node⟩) fun span => ?_
  exact h₆.alloc (.packed h₆.named)

theorem reads_retStmt (hword : st.kindAt i = .kw_ret) (hr : Element st lit exprParser 1 (i + 1) j tr)
    (hsemi : st.kindAt j = .semi) :
    Runs st lit stmtParser 1 i (j + 1) (.node .RetStmt 0 none 0 [tr]) := by
  intro n hn s hs
  have hlt := hr.lt
  obtain ⟨n, rfl⟩ : ∃ n', n = n' + 1 := ⟨n - 1, by omega⟩
  refine hs.stmt ?_
  rw [hword]
  show Yields (parseRetStmt (run n)) _ _
  unfold parseRetStmt
  refine hs.gathered.expect hword (by decide) fun t₁ h₁ => ?_
  refine h₁.call hr rfl (by omega) fun x t₂ h₂ => ?_
  exact h₂.expect hsemi (by decide) fun t₃ h₃ => h₃.alloc (.plain _)

theorem jump_runs {word : Token.Kind} {kind : NodeKind} (hs : Before st lit i s)
    (hword : st.kindAt i = word) (hne : word ≠ .eof) (hsemi : st.kindAt (i + 1) = .semi)
    (hkind : encodingOf kind = .plain) :
    Yields (parseJumpStmt kind) (s.Parsed (i + 2) (SyntaxTree.node kind 0 none 0 []).stored) s := by
  unfold parseJumpStmt
  refine hs.gathered.advance hword hne fun t₁ h₁ => ?_
  exact h₁.expect hsemi (by decide) fun t₂ h₂ => h₂.leaf (by rw [hkind]; exact .plain 0)

theorem reads_breakStmt (hword : st.kindAt i = .kw_break) (hsemi : st.kindAt (i + 1) = .semi) :
    Runs st lit stmtParser 1 i (i + 2) (.node .BreakStmt 0 none 0 []) := by
  intro n hn s hs
  obtain ⟨n, rfl⟩ : ∃ n', n = n' + 1 := ⟨n - 1, by omega⟩
  refine hs.stmt ?_
  rw [hword]
  exact jump_runs hs hword (by decide) hsemi rfl

theorem reads_continueStmt (hword : st.kindAt i = .kw_continue) (hsemi : st.kindAt (i + 1) = .semi) :
    Runs st lit stmtParser 1 i (i + 2) (.node .ContinueStmt 0 none 0 []) := by
  intro n hn s hs
  obtain ⟨n, rfl⟩ : ∃ n', n = n' + 1 := ⟨n - 1, by omega⟩
  refine hs.stmt ?_
  rw [hword]
  exact jump_runs hs hword (by decide) hsemi rfl

end Eter.Parser
