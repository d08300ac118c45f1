import Eter.Acceptance
import Eter.ValidStates

/-!
# Projection assignments

`*` takes a following `=` whatever the binding power it is reached with, so `* e = r` is an
assignment to `e` only where an assignment may stand and where `e` itself takes no `=`.
-/

namespace Eter.Parser
open Stateful

variable {s t u : PState} {n d : ℕ} {m : ℤ} {i j a b : ℕ} {lhs : NodeIndex} {rec : Rec}
  {k : Token.Kind}

/-! ### Ends of operands -/

/-- The tokens that continue an operand. -/
def isPostfix (k : Token.Kind) : Bool :=
  k = .l_paren || k = .dot || k = .l_square || k = .question || k = .kw_as

/-- Before such a token an expression ends that is parsed with a binding power. -/
def Ends (k : Token.Kind) (m : ℤ) : Prop :=
  isPostfix k = false ∧ (infixBindingPower k).1 < m

theorem Ends.weaken {k : Token.Kind} {m' : ℤ} (h : Ends k m) (hm : m ≤ m') : Ends k m' :=
  ⟨h.1, lt_of_lt_of_le h.2 hm⟩

theorem ends_eq (hm : 10 < m) : Ends .eq m := ⟨rfl, hm⟩

theorem postfixTurn_done (h : isPostfix (s.stream.peek 0) = false) :
    Yields (postfixTurn n rec lhs) (fun r t => r = .done lhs ∧ t = s) s := by
  unfold postfixTurn
  refine Yields.read rfl ?_
  split
  · simp_all [isPostfix]
  · simp_all [isPostfix]
  · simp_all [isPostfix]
  · simp_all [isPostfix]
  · simp_all [isPostfix]
  · exact Yields.pure ⟨rfl, rfl⟩

theorem parsePostfixOrCallExpr_done (h : isPostfix (s.stream.peek 0) = false) (hn : 1 ≤ n) :
    Yields (parsePostfixOrCallExpr n rec lhs) (fun i t => i = lhs ∧ t = s) s := by
  obtain ⟨n, rfl⟩ := Nat.exists_eq_add_of_le' hn
  unfold parsePostfixOrCallExpr iterate Stateful.iterate
  refine (postfixTurn_done h).bind ?_
  rintro _ _ ⟨rfl, rfl⟩
  exact Yields.pure ⟨rfl, rfl⟩

/-- The loop over operators stops at once. -/
theorem operators_done (h : Ends (s.stream.peek 0) m) (hn : 1 ≤ n) :
    Yields (iterate (infixTurn n rec m) n lhs) (fun i t => i = lhs ∧ t = s) s := by
  obtain ⟨k, rfl⟩ := Nat.exists_eq_add_of_le' hn
  unfold iterate Stateful.iterate
  refine Yields.bind (R := fun r t => r = .done lhs ∧ t = s) ?_ ?_
  · unfold infixTurn
    refine (parsePostfixOrCallExpr_done h.1 hn).bind ?_
    rintro _ _ ⟨rfl, rfl⟩
    refine Yields.read rfl ?_
    rw [if_pos h.2]
    exact Yields.pure ⟨rfl, rfl⟩
  · rintro _ _ ⟨rfl, rfl⟩
    exact Yields.pure ⟨rfl, rfl⟩

/-- An expression that is no more than its prefix form. -/
theorem expr_of_prefix {Q : NodeIndex → PState → Prop} (hn : 1 ≤ n)
    (hm : Yields (parsePrefixExpr n (run n)) (fun i t => Q i t ∧ Ends (t.stream.peek 0) m) s) :
    Yields (run (n + 1) (.expr m)) Q s := by
  show Yields (parseExpr n (run n) m) Q s
  unfold parseExpr
  refine hm.bind fun lhs t ht => ?_
  refine (operators_done ht.2 hn).mono ?_
  rintro _ _ ⟨rfl, rfl⟩
  exact ht.1

/-! ### Steps -/

/-- The node is there, with its kind and its children. -/
def Made (s : PState) (i : NodeIndex) (kind : NodeKind) (kids : List NodeIndex) : Prop :=
  (∃ d, s.pool.get? i = some d ∧ d.kind = kind) ∧ s.pool.childrenOf i = kids

theorem Made.kind_unique {kind kind' : NodeKind} {kids kids' : List NodeIndex} {x : NodeIndex}
    (h : Made s x kind kids) (h' : Made s x kind' kids') : kind = kind' := by
  obtain ⟨⟨data, hdata, rfl⟩, -⟩ := h
  obtain ⟨⟨data', hdata', rfl⟩, -⟩ := h'
  rw [hdata] at hdata'
  cases hdata'
  rfl

/-- The node that was allocated, with what it was given. -/
structure PState.Node (s : PState) (x : NodeIndex) (kind : NodeKind) (kids : List NodeIndex)
    (payload : ℕ) : Prop where
  data : ∃ d, s.pool.get? x = some d ∧ d.kind = kind ∧ d.payload = payload
  children : s.pool.childrenOf x = kids.take (kids.length % 2 ^ 16)
  given : s.pool.givenTo x = kids

theorem node_of_record {rs : List NodeRecord} {r : NodeRecord} (hp : s.pool = poolOf rs)
    (hr : rs[i]? = some r) : s.Node (some i) r.kind r.kids r.payload where
  data := ⟨_, by rw [hp]; exact get?_of_record hr, rfl, rfl⟩
  children := by
    rw [hp]
    exact childrenOf_of_record hr
  given := by
    rw [hp]
    exact givenTo_of_record hr

theorem alloc_node {rs : List NodeRecord} (hp : s.pool = poolOf rs) {kind : NodeKind} {span : Span}
    {kids : List NodeIndex} {payload flags : ℕ} :
    Yields (alloc kind span kids payload flags) (fun x t =>
      t.stream = s.stream ∧ t.errors = s.errors ∧ t.structLitAllowed = s.structLitAllowed ∧
        t.Node x kind kids payload) s :=
  ⟨_, _, alloc_records hp kind span kids payload flags, rfl, rfl, rfl,
    node_of_record (r := ⟨kind, span, kids, payload, flags⟩) rfl List.getElem?_concat_length⟩

theorem PState.Node.made {kind : NodeKind} {kids : List NodeIndex} {payload : ℕ} {x : NodeIndex}
    (h : s.Node x kind kids payload) (hkids : kids.length < 2 ^ 16) : Made s x kind kids := by
  obtain ⟨d, hd, hkind, -⟩ := h.data
  refine ⟨⟨d, hd, hkind⟩, ?_⟩
  rw [h.children, Nat.mod_eq_of_lt hkids, List.take_length]

theorem alloc_made (hs : s.Valid) {kind : NodeKind} {span : Span} {kids : List NodeIndex}
    {payload flags : ℕ} (hkids : kids.length < 2 ^ 16) :
    Yields (alloc kind span kids payload flags)
      (fun i t => t.stream = s.stream ∧ Made t i kind kids) s := by
  obtain ⟨rs, -, hp, -⟩ := hs.tree
  exact (alloc_node hp).mono fun _ _ h => ⟨h.1, h.2.2.2.made hkids⟩

theorem lt_of_peek (h : (s.at i).stream.peek 0 ≠ .eof) : i < s.stream.tokens.length := by
  by_contra hge
  refine h ?_
  unfold TokenStream.peek
  rw [List.getElem?_eq_none (by simpa [PState.at] using hge)]

theorem advance_of_peek (h : s.stream.peek 0 ≠ .eof) :
    Yields advance (fun _ t => t = s.moved) s := by
  have hlt : s.stream.cursor < s.stream.tokens.length := lt_of_peek (s := s) h
  refine ⟨_, _, rfl, ?_⟩
  rw [TokenStream.advance_of_token (List.getElem?_eq_getElem hlt)]
  rfl

theorem spanOf_of_has {α : Type} {f : Span → ParserM α} {Q : α → PState → Prop} {x : NodeIndex} (h : s.Has x)
    (hf : ∀ span, Yields (f span) Q s) : Yields (spanOf x >>= f) Q s := by
  obtain ⟨span, hspan⟩ := h
  refine Yields.read (a := span) ?_ (hf span)
  unfold spanOf
  rw [hspan]

/-- What follows `s` at a place follows every state that extends it there. -/
theorem PState.Extends.peek_at (h : s.Extends t) (i : ℕ) :
    (t.at i).stream.peek 0 = (s.at i).stream.peek 0 := by
  unfold TokenStream.peek PState.at
  rw [h.tokens]

theorem peek_of_extends (h : s.Extends t) (hj : t.stream.cursor = j) :
    t.stream.peek 0 = (s.at j).stream.peek 0 := by
  rw [← h.peek_at, ← hj, PState.at_self]

/-- An operand, and that it is there. -/
theorem operand_spec (hs : s.Valid) (hk : s.stream.peek 0 ≠ .eof)
    (hn : 4 * s.stream.tokens.length + 2 ≤ n)
    (hop : Yields (run n (.expr 110)) (fun _ t => t.stream.cursor = j) s.moved) :
    Yields (run n (.expr 110)) (fun i t => run n (.expr 110) s.moved = .ok (i, t) ∧
      s.moved.Extends t ∧ t.Has i ∧ t.stream.cursor = j) s.moved := by
  have hext := (hs.moved rfl hk).expr (m := 110) (n := n) (by norm_num) (by
    show 4 * (s.stream.tokens.length - _) + 2 ≤ n
    omega)
  obtain ⟨i, t, hrun, hj⟩ := hop
  have hext' := hext.of_eq hrun
  exact ⟨i, t, hrun, hrun, hext'.1, hext'.2, hj⟩

/-- `!`, `-`, or `&` before an operand. -/
theorem unary_ends (hs : s.Valid) (hk : isPrefixOperator (s.stream.peek 0) = true)
    (hn : 4 * s.stream.tokens.length + 2 ≤ n)
    (hop : Yields (run n (.expr 110)) (fun _ t => t.stream.cursor = j) s.moved)
    (hends : Ends ((s.at j).stream.peek 0) m) :
    Yields (run (n + 1) (.expr m)) (fun _ t => t.stream.cursor = j) s := by
  have hkinds : s.stream.peek 0 = .bang ∨ s.stream.peek 0 = .minus ∨ s.stream.peek 0 = .amp := by
    simpa [isPrefixOperator, or_assoc] using hk
  have hne : s.stream.peek 0 ≠ .eof := by rcases hkinds with h | h | h <;> simp [h]
  have hlit : isLiteral (s.stream.peek 0) = false := by rcases hkinds with h | h | h <;> rw [h] <;> rfl
  have hbp : prefixBindingPower (s.stream.peek 0) = 110 := by
    rcases hkinds with h | h | h <;> rw [h] <;> rfl
  refine expr_of_prefix (by omega) ?_
  unfold parsePrefixExpr
  refine Yields.read rfl ?_
  rw [peekToken_kind, hlit, hk, if_neg (by simp), if_pos rfl]
  unfold parseUnaryExpr
  refine (advance_of_peek hne).bind ?_
  rintro _ _ rfl
  rw [peekToken_kind, hbp]
  refine (operand_spec hs hne hn hop).bind ?_
  rintro x t ⟨-, hext, hhas, hj⟩
  refine spanOf_of_has hhas fun _ => ?_
  refine (alloc_made hext.valid (by simp)).mono ?_
  rintro i u ⟨hu, -⟩
  rw [hu]
  refine ⟨hj, ?_⟩
  rw [peek_of_extends hext hj]
  exact hends

theorem parsePrefixExpr_star {Q : NodeIndex → PState → Prop} (hk : s.stream.peek 0 = .star)
    (h : Yields (do
      let operand ← run n (.expr 110)
      if ← consume .eq then
        let rhs ← run n (.expr 0)
        alloc .ProjAssignExpr ⟨(s.stream.peekToken 0).tokenSpan.start, (← spanOf rhs).end⟩
          [operand, rhs] 0 0
      else
        alloc .UnaryExpr ⟨(s.stream.peekToken 0).tokenSpan.start, (← spanOf operand).end⟩
          [operand] (NodePool.makeOpPayload Token.Kind.star.value) 0) Q s.moved) :
    Yields (parsePrefixExpr n (run n)) Q s := by
  unfold parsePrefixExpr
  refine Yields.read rfl ?_
  rw [peekToken_kind, hk, if_neg (by decide), if_neg (by decide)]
  show Yields (parseStarExpr _ _) _ _
  unfold parseStarExpr
  refine (advance_of_peek (by rw [hk]; decide)).bind ?_
  rintro _ _ rfl
  rw [peekToken_kind, hk]
  exact h

theorem consume_miss (hk : s.stream.peek 0 ≠ k) :
    Yields (consume k) (fun c t => c = false ∧ t = s) s := by
  refine ⟨_, _, rfl, ?_⟩
  unfold TokenStream.consume TokenStream.check
  rw [if_neg (by simpa using hk)]
  exact ⟨rfl, rfl⟩

theorem consume_hit (hk : s.stream.peek 0 = k) (hne : k ≠ .eof) :
    Yields (consume k) (fun c t => c = true ∧ t = s.moved) s := by
  have hlt : s.stream.cursor < s.stream.tokens.length := lt_of_peek (s := s) (hk ▸ hne)
  refine ⟨_, _, rfl, ?_⟩
  unfold TokenStream.consume TokenStream.check
  rw [if_pos (by simpa using hk), TokenStream.advance_of_token (List.getElem?_eq_getElem hlt)]
  exact ⟨rfl, rfl⟩

/-- `*` before an operand that no `=` follows. -/
theorem star_unary (hs : s.Valid) (hk : s.stream.peek 0 = .star)
    (hn : 4 * s.stream.tokens.length + 2 ≤ n)
    (hop : Yields (run n (.expr 110)) (fun _ t => t.stream.cursor = j) s.moved)
    (heq : (s.at j).stream.peek 0 ≠ .eq) (hends : Ends ((s.at j).stream.peek 0) m) :
    Yields (run (n + 1) (.expr m))
      (fun i t => t.stream.cursor = j ∧ ∃ e, Made t i .UnaryExpr [e]) s := by
  have hne : s.stream.peek 0 ≠ .eof := by simp [hk]
  refine expr_of_prefix (by omega) (parsePrefixExpr_star hk ?_)
  refine (operand_spec hs hne hn hop).bind ?_
  rintro e t ⟨-, hext, hhas, hj⟩
  have hpeek : t.stream.peek 0 = (s.at j).stream.peek 0 :=
    peek_of_extends (s := s.moved) hext hj
  refine (consume_miss (hpeek ▸ heq)).bind ?_
  rintro _ _ ⟨rfl, rfl⟩
  refine spanOf_of_has hhas fun _ => ?_
  refine (alloc_made hext.valid (by simp)).mono ?_
  rintro i u ⟨hu, hmade⟩
  rw [hu]
  exact ⟨⟨hj, e, hmade⟩, hpeek ▸ hends⟩

/-- `*` before an operand and `=`, at whatever binding power. -/
theorem star_assigns (hs : s.Valid) (hk : s.stream.peek 0 = .star)
    (hn : 4 * s.stream.tokens.length + 2 ≤ n)
    (hop : Yields (run n (.expr 110)) (fun _ t => t.stream.cursor = a) s.moved)
    (heq : (s.at a).stream.peek 0 = .eq) (hrhs : ParsesWith n s 0 (a + 1) b)
    (hends : Ends ((s.at b).stream.peek 0) m) :
    Yields (run (n + 1) (.expr m)) (fun i t => t.stream.cursor = b ∧ a + 1 ≤ b ∧
      ∃ e te r tr, run n (.expr 110) s.moved = .ok (e, te) ∧ te.stream.cursor = a ∧
        run n (.expr 0) te.moved = .ok (r, tr) ∧ tr.stream.cursor = b ∧
        Made t i .ProjAssignExpr [e, r]) s := by
  have hne : s.stream.peek 0 ≠ .eof := by simp [hk]
  have hlt : a < s.stream.tokens.length := lt_of_peek (by rw [heq]; decide)
  refine expr_of_prefix (by omega) (parsePrefixExpr_star hk ?_)
  refine (operand_spec hs hne hn hop).bind ?_
  rintro e te ⟨hrun, hext, -, rfl⟩
  have hpeek : te.stream.peek 0 = .eq := (peek_of_extends hext rfl).trans heq
  refine (consume_hit hpeek (by decide)).bind ?_
  rintro _ _ ⟨rfl, rfl⟩
  have hmoved := hext.valid.moved hpeek (by decide)
  have hr : Yields (run n (.expr 0)) (fun r tr => run n (.expr 0) te.moved = .ok (r, tr) ∧
      te.moved.Extends tr ∧ tr.Has r ∧ tr.stream.cursor = b) te.moved := by
    have hparses := hrhs.transfer hs hext.valid hlt hext.tokens hext.source hext.lit n le_rfl
    have hspec := hmoved.expr (m := 0) (n := n) le_rfl (by
      rw [show te.moved.stream.tokens = s.stream.tokens from hext.tokens]
      omega)
    obtain ⟨r, tr, hrun, hb⟩ := hparses
    have hspec' := hspec.of_eq hrun
    exact ⟨r, tr, hrun, hrun, hspec'.1, hspec'.2, hb⟩
  refine hr.bind ?_
  rintro r tr ⟨hrunr, hextr, hhas, rfl⟩
  refine spanOf_of_has hhas fun _ => ?_
  refine (alloc_made hextr.valid (by simp)).mono ?_
  rintro i u ⟨hu, hmade⟩
  rw [hu]
  have hpeekb : tr.stream.peek 0 = (s.at tr.stream.cursor).stream.peek 0 := by
    rw [peek_of_extends hextr rfl]
    exact hext.peek_at _
  exact ⟨⟨rfl, hextr.forward, e, te, r, tr, hrun, rfl, hrunr, rfl, hmade⟩, hpeekb ▸ hends⟩

/-! ### Operands behind prefix operators -/

/-- Prefix operators from token `i` on, an operand that starts behind them and ends before `=` at
token `a`, and an expression behind it that ends at token `b`. -/
structure Assignment (s : PState) (ops : List Token.Kind) (i a b : ℕ) : Prop where
  operators : ∀ k (h : k < ops.length), (s.at (i + k)).stream.peek 0 = ops[k]
  prefixes : ∀ k ∈ ops, prefixBindingPower k = 110
  core : ParsesTo s 110 (i + ops.length) a
  eq : (s.at a).stream.peek 0 = .eq
  rhs : ParsesTo s 0 (a + 1) b
  ends : Ends ((s.at b).stream.peek 0) 0

theorem Assignment.tail {ops : List Token.Kind} (h : Assignment s (k :: ops) i a b) :
    Assignment s ops (i + 1) a b where
  operators l hl := by
    have hop := h.operators (l + 1) (by simpa using hl)
    rw [show i + 1 + l = i + (l + 1) by omega]
    simpa using hop
  prefixes l hl := h.prefixes l (List.mem_cons_of_mem _ hl)
  core := by
    have hc := h.core
    rwa [List.length_cons, ← Nat.add_assoc, Nat.add_right_comm] at hc
  eq := h.eq
  rhs := h.rhs
  ends := h.ends

theorem prefix_operator (h : prefixBindingPower k = 110) :
    k = .star ∨ isPrefixOperator k = true ∧ k ≠ .star := by
  cases k <;> first | exact Or.inl rfl | exact Or.inr ⟨rfl, by decide⟩ | exact absurd h (by decide)

theorem ParsesWith.mono (h : ParsesWith d s m i j) {d' : ℕ} (hd : d ≤ d') : ParsesWith d' s m i j :=
  fun n hn => h n (hd.trans hn)

theorem Assignment.not_eq {ops : List Token.Kind} (h : Assignment s ops i a b) :
    (s.at b).stream.peek 0 ≠ .eq := by
  intro heq
  have hbp := h.ends.2
  rw [heq] at hbp
  exact absurd hbp (by decide)

theorem Assignment.forward {ops : List Token.Kind} (h : Assignment s ops i a b) (hs : s.Valid) :
    a < b := by
  have hlt : a < s.stream.tokens.length := lt_of_peek (by rw [h.eq]; decide)
  exact h.rhs.forward hs hlt le_rfl

/-- An operand that starts with prefix operators ends before `=` unless one of them is `*`. -/
theorem Assignment.operand (hs : s.Valid) {ops : List Token.Kind} (h : Assignment s ops i a b) :
    ∃ d, ParsesWith d s 110 i (if .star ∈ ops then b else a) := by
  induction ops generalizing i with
  | nil => simpa [ParsesTo] using h.core
  | cons k ops ih =>
    obtain ⟨d, hd⟩ := ih h.tail
    obtain ⟨d', hd'⟩ := h.rhs
    have hk : (s.at i).stream.peek 0 = k := h.operators 0 (by simp)
    have hop := prefix_operator (h.prefixes k List.mem_cons_self)
    have hne : k ≠ .eof := by
      rintro rfl
      exact absurd hop (by decide)
    have hu : (s.at i).Valid := hs.at (lt_of_peek (hk ▸ hne)).le
    have hends : Ends ((s.at b).stream.peek 0) 110 := h.ends.weaken (by norm_num)
    refine ⟨max (max d d') (4 * s.stream.tokens.length + 2) + 1, fun n hn => ?_⟩
    obtain ⟨n, rfl⟩ : ∃ n', n = n' + 1 := ⟨n - 1, by omega⟩
    have hrun := hd n (by omega)
    rcases hop with rfl | ⟨hop, hstar⟩
    · rw [if_pos List.mem_cons_self]
      by_cases hmem : Token.Kind.star ∈ ops
      · rw [if_pos hmem] at hrun
        exact (star_unary hu hk (by show 4 * s.stream.tokens.length + 2 ≤ n; omega) hrun
          h.not_eq hends).mono fun _ _ ht => ht.1
      · rw [if_neg hmem] at hrun
        exact (star_assigns hu hk (by show 4 * s.stream.tokens.length + 2 ≤ n; omega) hrun h.eq
          (hd'.mono (by omega)) hends).mono fun _ _ ht => ht.1
    · have hmem : Token.Kind.star ∈ k :: ops ↔ Token.Kind.star ∈ ops := by simp [hstar.symm]
      simp only [hmem]
      refine unary_ends hu (hk ▸ hop) (by show 4 * s.stream.tokens.length + 2 ≤ n; omega) hrun ?_
      show Ends ((s.at (if _ then b else a)).stream.peek 0) 110
      split_ifs
      · exact hends
      · rw [h.eq]
        exact ends_eq (by norm_num)

/-! ### The precedence of the assignment -/

/-- Where an assignment may stand, what `*` gives is the assignment of the expression behind `=` to
the operand before it; elsewhere the operand of `*` ends before `=`. -/
def HasAssignmentPrecedence (n : ℕ) (s : PState) (m : ℤ) (a b : ℕ) (i : NodeIndex) (t : PState) :
    Prop :=
  if m ≤ (infixBindingPower .eq).1 then
    (∃ e te r tr, run n (.expr 110) s.moved = .ok (e, te) ∧ te.stream.cursor = a ∧
      run n (.expr 0) te.moved = .ok (r, tr) ∧ tr.stream.cursor = b ∧
      Made t i .ProjAssignExpr [e, r]) ∧ t.stream.cursor = b
  else t.stream.cursor = a

theorem projection_assignment_iff (hs : s.Valid) (hk : s.stream.peek 0 = .star)
    {ops : List Token.Kind} (h : Assignment s ops (s.stream.cursor + 1) a b) (hm : 0 ≤ m) :
    ∃ d, ∀ n ≥ d, Yields (run (n + 1) (.expr m)) (fun i t =>
      HasAssignmentPrecedence n s m a b i t ↔ m ≤ 10 ∧ .star ∉ ops) s := by
  obtain ⟨d, hd⟩ := h.operand hs
  obtain ⟨d', hd'⟩ := h.rhs
  have hends : Ends ((s.at b).stream.peek 0) m := h.ends.weaken hm
  have hten : (infixBindingPower .eq).1 = 10 := rfl
  refine ⟨max (max d d') (4 * s.stream.tokens.length + 2), fun n hn => ?_⟩
  have hrun : Yields (run n (.expr 110)) _ s.moved := hd n (by omega)
  by_cases hmem : Token.Kind.star ∈ ops
  · rw [if_pos hmem] at hrun
    refine (star_unary hs hk (by omega) hrun h.not_eq hends).mono ?_
    rintro i t ⟨hb, e, hmade⟩
    have hlt := h.forward hs
    refine ⟨fun hprec => ?_, fun h' => (h'.2 hmem).elim⟩
    unfold HasAssignmentPrecedence at hprec
    split_ifs at hprec
    · obtain ⟨⟨_, _, _, _, -, -, -, -, hmade'⟩, -⟩ := hprec
      cases hmade.kind_unique hmade'
    · omega
  · rw [if_neg hmem] at hrun
    refine (star_assigns hs hk (by omega) hrun h.eq (hd'.mono (by omega)) hends).mono ?_
    rintro i t ⟨hb, hlt, hmade⟩
    unfold HasAssignmentPrecedence
    rw [hten]
    split_ifs with h10
    · exact ⟨fun _ => ⟨h10, hmem⟩, fun _ => ⟨hmade, hb⟩⟩
    · refine ⟨fun ha => ?_, fun h' => (h10 h'.1).elim⟩
      omega

/-- The state at the beginning of `*x=y;`, one byte a token. -/
def derefAssign : PState := initialState (.fresh [byteToken .star 0, byteToken .identifier 1,
  byteToken .eq 2, byteToken .identifier 3, byteToken .semi 4] [] []) .new

theorem derefAssign_assignment : Assignment derefAssign [] 1 2 4 where
  operators k hk := by simp at hk
  prefixes k hk := by simp at hk
  core := by
    refine ⟨10, fun n hn => ?_⟩
    obtain ⟨n, rfl⟩ := Nat.exists_eq_add_of_le' hn
    exact ⟨_, _, by rfl, by rfl⟩
  eq := rfl
  rhs := by
    refine ⟨10, fun n hn => ?_⟩
    obtain ⟨n, rfl⟩ := Nat.exists_eq_add_of_le' hn
    exact ⟨_, _, by rfl, by rfl⟩
  ends := ⟨rfl, by decide⟩

theorem projection_assignment_iff_deref : ∃ d, ∀ n ≥ d, Yields (run (n + 1) (.expr 0))
    (fun i t => HasAssignmentPrecedence n derefAssign 0 2 4 i t ↔
      (0 : ℤ) ≤ 10 ∧ Token.Kind.star ∉ ([] : List Token.Kind)) derefAssign :=
  projection_assignment_iff (s := derefAssign) (PState.Valid.initial _ _ _ _) rfl
    derefAssign_assignment le_rfl

/-- The state at the beginning of `**x=y;`, one byte a token. -/
def derefTwiceAssign : PState := initialState (.fresh [byteToken .star 0, byteToken .star 1,
  byteToken .identifier 2, byteToken .eq 3, byteToken .identifier 4, byteToken .semi 5] [] []) .new

theorem derefTwiceAssign_assignment : Assignment derefTwiceAssign [.star] 1 3 5 where
  operators k hk := by
    obtain rfl : k = 0 := by simpa using hk
    rfl
  prefixes k hk := by
    rw [List.mem_singleton.mp hk]
    rfl
  core := by
    refine ⟨10, fun n hn => ?_⟩
    obtain ⟨n, rfl⟩ := Nat.exists_eq_add_of_le' hn
    exact ⟨_, _, by rfl, by rfl⟩
  eq := rfl
  rhs := by
    refine ⟨10, fun n hn => ?_⟩
    obtain ⟨n, rfl⟩ := Nat.exists_eq_add_of_le' hn
    exact ⟨_, _, by rfl, by rfl⟩
  ends := ⟨rfl, by decide⟩

/-- The inner `*` takes the `=`, so there is no assignment to `*x`. -/
theorem projection_assignment_lost :
    ¬ ∀ s m ops a b, s.Valid → s.stream.peek 0 = .star →
      Assignment s ops (s.stream.cursor + 1) a b → 0 ≤ m →
        ∃ d, ∀ n ≥ d, Yields (run (n + 1) (.expr m))
          (fun i t => HasAssignmentPrecedence n s m a b i t) s := by
  intro hclaim
  have hvalid : derefTwiceAssign.Valid := PState.Valid.initial _ _ _ _
  obtain ⟨d, hd⟩ := hclaim derefTwiceAssign 0 _ _ _ hvalid rfl derefTwiceAssign_assignment le_rfl
  obtain ⟨d', hd'⟩ := derefTwiceAssign_assignment.operand hvalid
  have hop : Yields (run (d + d' + 26) (.expr 110)) (fun _ t => t.stream.cursor = 5)
      derefTwiceAssign.moved := hd' _ (by omega)
  have hunary := star_unary (m := 0) hvalid rfl (by show 4 * 6 + 2 ≤ d + d' + 26; omega) hop
    derefTwiceAssign_assignment.not_eq derefTwiceAssign_assignment.ends
  obtain ⟨i, t, -, ⟨-, e, hmade⟩, hprec⟩ := hunary.and (hd (d + d' + 26) (by omega))
  unfold HasAssignmentPrecedence at hprec
  rw [if_pos (by decide)] at hprec
  obtain ⟨⟨_, _, _, _, -, -, -, -, hmade'⟩, -⟩ := hprec
  cases hmade.kind_unique hmade'

end Eter.Parser
