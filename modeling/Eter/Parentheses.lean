import Eter.ElementLists

/-!
# Parenthesised lists

A list in parentheses is read by one production in expressions and by two others in types and in
patterns. They agree unless the list is one element without a comma behind it, which groups in
expressions only.
-/

namespace Eter.Parser
open Stateful

variable {s s₁ s₂ s₃ t t₁ t₂ t₃ u v w : PState} {n d i e : ℕ} {is is₁ is₂ is₃ : List ℕ}
  {x x₁ x₂ x₃ : NodeIndex} {xs : List NodeIndex} {b : Bool} {call : Call} {kind : NodeKind}

/-! ### What stands in the parentheses -/

/-- At the cursor stands a parenthesised list without errors whose elements start at the tokens `is`,
with a comma behind the last one if `b`. The elements are read as from the state `base`. -/
inductive Parenthesised (s base : PState) (call : Call) : List ℕ → Bool → Prop where
  | empty (hopen : s.kindAt s.stream.cursor = .l_paren)
      (hclose : s.kindAt (s.stream.cursor + 1) = .r_paren) : Parenthesised s base call [] false
  | elements {is : List ℕ} {e : ℕ} {b : Bool} (hopen : s.kindAt s.stream.cursor = .l_paren)
      (hlist : CleanList base call isRParen ((s.stream.cursor + 1) :: is) e b)
      (hclose : s.kindAt e = .r_paren) : Parenthesised s base call ((s.stream.cursor + 1) :: is) b

theorem Parenthesised.opening (h : Parenthesised s t call is b) : s.stream.peek 0 = .l_paren := by
  cases h with
  | empty hopen _ => exact hopen
  | elements hopen _ _ => exact hopen

/-- The nodes of the elements, if there are any. -/
def ElementNodes (el : ParserM NodeIndex) (t : PState) (is : List ℕ) (xs : List NodeIndex) : Prop :=
  is = [] ∧ xs = [] ∨ ∃ v, Sequence el t is xs v

theorem ElementNodes.length {el : ParserM NodeIndex} (h : ElementNodes el t is xs) :
    xs.length = is.length := by
  rcases h with ⟨rfl, rfl⟩ | ⟨v, h⟩
  · rfl
  · exact h.length

/-- The only element is what the only run gives. -/
theorem ElementNodes.single {el : ParserM NodeIndex} (h : ElementNodes el t [i] xs)
    (hrun : el t = .ok (x, u)) : xs = [x] := by
  rcases h with ⟨h, -⟩ | ⟨v, h⟩
  · cases h
  · obtain ⟨hx, hafter⟩ := h
    rw [hrun] at hx
    cases hx
    cases hafter
    rfl

/-! ### How the list is classified -/

/-- The parentheses group: there is one element, and the result is its node. -/
def Groups (el : ParserM NodeIndex) (t₀ : PState) (is : List ℕ) (x : NodeIndex) : Prop :=
  is.length = 1 ∧ ElementNodes el t₀ is [x]

/-- The result is a node of the kind whose children are the nodes of the elements. -/
def MakesTuple (kind : NodeKind) (el : ParserM NodeIndex) (t₀ : PState) (is : List ℕ) (x : NodeIndex)
    (t : PState) : Prop :=
  ∃ xs, ElementNodes el t₀ is xs ∧ Made t x kind xs

theorem PState.Valid.not_own_child (h : s.Valid) (x : NodeIndex) : x ∉ s.pool.childrenOf x := by
  obtain ⟨rs, hs, hp, hg⟩ := h.tree
  rw [hp]
  cases x with
  | none => simp [NodePool.childrenOf, NodePool.get?]
  | some i =>
    cases hr : rs[i]? with
    | none =>
      have hget : (poolOf rs).get? (some i) = none := by rw [poolOf_get?, hr]; rfl
      simp [NodePool.childrenOf, hget]
    | some r =>
      rw [childrenOf_of_record hr]
      intro hmem
      have hkid : i ∈ refs r.kids := List.mem_filterMap.mpr ⟨some i, List.mem_of_mem_take hmem, rfl⟩
      have hrefs : (rs.map fun r => refs r.kids)[i]? = some (refs r.kids) := by
        rw [List.getElem?_map, hr]
        rfl
      exact lt_irrefl i (hg.forest.older i _ hrefs i hkid).2

/-- A list that groups is no tuple, and the other way round. -/
theorem Groups.not_tuple {el : ParserM NodeIndex} (h : Groups el t is x) (hv : v.Valid) :
    ¬ MakesTuple kind el t is x v := by
  rintro ⟨xs, hxs, -, hkids⟩
  obtain ⟨hlen, hx⟩ := h
  obtain ⟨i, rfl⟩ := List.length_eq_one_iff.mp hlen
  rcases hx with ⟨hnil, -⟩ | ⟨u, hx⟩
  · cases hnil
  · obtain ⟨hrun, -⟩ := hx
    obtain rfl := hxs.single hrun
    exact hv.not_own_child x (by rw [hkids]; exact List.mem_singleton_self x)

/-- A tuple node with too many children. -/
theorem not_tuple_of_many {el : ParserM NodeIndex} {kids : List NodeIndex} {payload : ℕ}
    (h : t.Node x kind kids payload) (hlen : kids.length = is.length) (hmany : 65535 < is.length) :
    ¬ MakesTuple kind el u is x t := by
  rintro ⟨xs, hxs, -, hkids⟩
  have hcount := congrArg List.length hkids
  rw [h.children, List.length_take, hxs.length] at hcount
  have hmod := Nat.mod_lt kids.length (show 0 < 2 ^ 16 by norm_num)
  omega

/-! ### Types and patterns -/

/-- The elements of a list in parentheses, from behind `(` on. -/
theorem elements_run (hs : s.Valid) (h : Parenthesised s s call is b)
    (hstarts : ∀ i j, Clean s call i j → closesElement (s.kindAt i) = false)
    (hc : ∀ k, Starts k call) : ∃ d, ∀ n ≥ d,
    Yields (parseCommaSeparated n [] .r_paren (run n call)) (fun xs w =>
      ElementNodes (run n call) s.moved is xs ∧ s.Extends w ∧ w.stream.peek 0 = .r_paren ∧
        w.errors = s.errors) s.moved := by
  have hext := hs.extends_moved h.opening (by decide)
  cases h with
  | empty _ hclose =>
    refine ⟨0, fun n _ => ?_⟩
    unfold parseCommaSeparated
    refine Yields.read rfl (Yields.read rfl ?_)
    rw [TokenStream.check, show s.moved.stream.peek 0 = .r_paren from hclose]
    exact Yields.pure ⟨Or.inl ⟨rfl, rfl⟩, hext, hclose, rfl⟩
  | @elements is e b _ hlist hclose =>
    obtain ⟨d, hd⟩ := hlist.reads hs hstarts hc
    obtain ⟨j, hj⟩ := hlist.head
    have hopen := hstarts _ _ hj
    have hne : s.kindAt (s.stream.cursor + 1) ≠ .r_paren ∧ s.kindAt (s.stream.cursor + 1) ≠ .eof := by
      constructor <;> intro hk <;> rw [hk] at hopen <;> cases hopen
    refine ⟨max d (is.length + 1), fun n hn => ?_⟩
    refine (parseCommaSeparated_runs (le_of_max_le_left hn) hd hext.valid hext.shares rfl hne.1 hne.2
      (le_of_max_le_right hn)).mono ?_
    rintro _ w ⟨xs, v, rfl, hxs, hran⟩
    have hext' := hext.trans hran.ext
    exact ⟨Or.inr ⟨v, hxs⟩, hext', (PState.peek_of_shares hext'.shares hran.cursor).trans hclose,
      hran.errors⟩

/-- A list that becomes a tuple node. -/
structure TupleRun (kind : NodeKind) (call : Call) (n : ℕ) (s t₀ : PState) (is : List ℕ)
    (x : NodeIndex) (t : PState) : Prop where
  errors : t.errors = s.errors
  node : ∃ xs payload, ElementNodes (run n call) t₀ is xs ∧ t.Node x kind xs payload

theorem TupleRun.makes (h : TupleRun kind call n s t is x u) (hfew : is.length ≤ 65535) :
    MakesTuple kind (run n call) t is x u := by
  obtain ⟨xs, payload, hxs, hnode⟩ := h.node
  refine ⟨xs, hxs, hnode.made ?_⟩
  rw [hxs.length]
  omega

theorem TupleRun.not_makes (h : TupleRun kind call n s t is x u) (hmany : 65535 < is.length) :
    ¬ MakesTuple kind (run n call) t is x u := by
  obtain ⟨xs, payload, hxs, hnode⟩ := h.node
  exact not_tuple_of_many hnode hxs.length hmany

theorem TupleRun.not_groups (h : TupleRun kind call n s t is x u) (hu : u.Valid) :
    ¬ Groups (run n call) t is x := by
  intro hgroups
  have hlen := hgroups.1
  exact hgroups.not_tuple hu (h.makes (by omega))

/-- `(`, the elements, `)`, and a node of the elements. -/
theorem tuple_run (hs : s.Valid) (h : Parenthesised s s call is b)
    (hstarts : ∀ i j, Clean s call i j → closesElement (s.kindAt i) = false)
    (hc : ∀ k, Starts k call) : ∃ d, ∀ n ≥ d, ∀ (dgn : DiagID) (span : Token → Token → Span)
      (payload : ℕ), Yields (do
        let tok ← advance
        let xs ← parseCommaSeparated n [] .r_paren (run n call)
        let close ← expect .r_paren dgn ""
        alloc kind (span tok close) xs payload 0)
      (fun x t => TupleRun kind call n s s.moved is x t) s := by
  obtain ⟨d, hd⟩ := elements_run hs h hstarts hc
  refine ⟨d, fun n hn dgn span payload => ?_⟩
  refine (advance_of_peek (by rw [h.opening]; decide)).bind ?_
  rintro _ _ rfl
  refine (hd n hn).bind ?_
  rintro xs w ⟨hxs, hext, hclose, herr⟩
  refine (expect_hit hclose (by decide)).bind ?_
  rintro _ _ ⟨-, rfl⟩
  obtain ⟨rs, -, hrs, -⟩ := hext.valid.tree
  refine (alloc_node (s := w.moved) hrs).mono ?_
  rintro x t ⟨-, herr', -, hnode⟩
  exact ⟨herr'.trans herr, xs, _, hxs, hnode⟩

theorem type_tuple_run (hs : s.Valid) (h : Parenthesised s s .type is b) : ∃ d, ∀ n ≥ d,
    Yields (run (n + 1) .type) (fun x t => TupleRun .TupleType .type n s s.moved is x t) s := by
  obtain ⟨d, hd⟩ := tuple_run hs h (fun _ _ => Clean.type_starts) fun _ => trivial
  refine ⟨d, fun n hn => ?_⟩
  show Yields (parseType n (run n)) _ s
  unfold parseType
  refine Yields.read rfl ?_
  rw [TokenStream.check, decide_eq_true h.opening, if_pos rfl]
  exact hd n hn _ (fun tok close => ⟨tok.tokenSpan.start, close.tokenSpan.end⟩) 0

theorem pat_tuple_run (hs : s.Valid) (h : Parenthesised s s .pat is b) : ∃ d, ∀ n ≥ d,
    Yields (run (n + 1) .pat) (fun x t => TupleRun .TuplePat .pat n s s.moved is x t) s := by
  obtain ⟨d, hd⟩ := tuple_run hs h (fun _ _ => Clean.pat_starts) fun _ => trivial
  refine ⟨d, fun n hn => ?_⟩
  show Yields (parsePat n (run n)) _ s
  unfold parsePat
  refine Yields.read rfl ?_
  rw [peekToken_kind, h.opening, if_neg (by decide), if_pos rfl]
  exact hd n hn _ (fun _ close => ⟨_, close.tokenSpan.end⟩) _

/-! ### Expressions -/

/-- What the expression in parentheses becomes. -/
def ParenRun (n : ℕ) (s : PState) (is : List ℕ) (b : Bool) (x : NodeIndex) (t : PState) : Prop :=
  if is.length = 1 ∧ b = false then
    t.errors = s.errors ∧ t.Valid ∧ Groups (run n (.expr 0)) (s.moved.allow true) is x
  else TupleRun .TupleExpr (.expr 0) n s (s.moved.allow true) is x t

theorem parsePrefixExpr_paren {Q : NodeIndex → PState → Prop} {rec : Rec}
    (hk : s.stream.peek 0 = .l_paren)
    (h : Yields (parseParenExpr n rec (s.stream.peekToken 0)) Q s) :
    Yields (parsePrefixExpr n rec) Q s := by
  unfold parsePrefixExpr
  refine Yields.read rfl ?_
  rw [peekToken_kind, hk]
  exact h

theorem Tail.of_comma {P : ℕ → ℕ → Prop} {close : Token.Kind → Bool} (h : Tail s P close i is e b)
    (hk : s.kindAt i = .comma) : ¬ (is = [] ∧ b = false) := by
  cases h with
  | stop h => exact absurd hk h
  | trailing _ _ => simp
  | more _ _ _ _ => simp

theorem Tail.of_not_comma {P : ℕ → ℕ → Prop} {close : Token.Kind → Bool}
    (h : Tail s P close i is e b) (hk : s.kindAt i ≠ .comma) : is = [] ∧ e = i ∧ b = false := by
  cases h with
  | stop _ => exact ⟨rfl, rfl, rfl⟩
  | trailing h _ => exact absurd h hk
  | more h _ _ _ => exact absurd h hk

theorem paren_run (hs : s.Valid) (h : Parenthesised s (s.allow true) (.expr 0) is b) :
    ∃ d, ∀ n ≥ d, Yields (parsePrefixExpr n (run n)) (fun x t => ParenRun n s is b x t) s := by
  have hpeek := h.opening
  have hext := (hs.extends_moved hpeek (by decide))
  cases h with
  | empty _ hclose =>
    refine ⟨0, fun n _ => parsePrefixExpr_paren hpeek ?_⟩
    unfold parseParenExpr
    refine (advance_of_peek (by rw [hpeek]; decide)).bind ?_
    rintro _ _ rfl
    refine Yields.withStructLit ?_
    have hclose' : (s.moved.allow true).stream.peek 0 = .r_paren := hclose
    refine Yields.read rfl ?_
    rw [TokenStream.check, decide_eq_true hclose', if_pos rfl]
    refine (advance_of_peek (by rw [hclose']; decide)).bind ?_
    rintro _ _ rfl
    obtain ⟨rs, -, hrs, -⟩ := hs.tree
    refine (alloc_node (s := (s.moved.allow true).moved) hrs).mono ?_
    rintro x t ⟨-, herr, -, hnode⟩
    unfold ParenRun
    rw [if_neg (by simp)]
    exact ⟨herr, [], _, Or.inl ⟨rfl, rfl⟩, ⟨hnode.data, hnode.children, hnode.given⟩⟩
  | @elements is e b _ hlist hclose =>
    obtain ⟨d, hd⟩ := hlist.reads (hs.allow true) (fun _ _ => Clean.expr_starts) fun _ => le_rfl
    obtain ⟨j, hj⟩ := hlist.head
    have hopen := hj.expr_starts
    refine ⟨max d (is.length + 1), fun n hn => parsePrefixExpr_paren hpeek ?_⟩
    obtain ⟨hp, htail⟩ := hd
    unfold parseParenExpr
    refine (advance_of_peek (by rw [hpeek]; decide)).bind ?_
    rintro _ _ rfl
    refine Yields.withStructLit ?_
    have hne : (s.moved.allow true).stream.peek 0 ≠ .r_paren := by
      intro hk
      rw [show (s.allow true).kindAt (s.stream.cursor + 1) = .r_paren from hk] at hopen
      cases hopen
    refine Yields.read rfl ?_
    rw [TokenStream.check, decide_eq_false hne, if_neg (by simp)]
    have hsh : (s.allow true).Shares (s.moved.allow true) := hext.shares.allow true
    refine (hp n (le_of_max_le_left hn) _ (hext.valid.allow true) hsh rfl).bind ?_
    rintro x u ⟨hrun, hextu, -, hcur, herru⟩
    have hshu := hsh.trans hextu.shares
    have hpeeku := PState.peek_of_shares hshu hcur
    refine Yields.read rfl ?_
    rw [TokenStream.check, hpeeku]
    split_ifs with hcomma
    · have hcomma := htail.of_comma (of_decide_eq_true hcomma)
      unfold parseTupleRest
      refine (parseMore_runs (le_of_max_le_left hn) htail hextu.valid hshu hcur
        (le_of_max_le_right hn)).bind ?_
      rintro _ w ⟨xs, v, rfl, hafter, hran⟩
      have hclosew : w.stream.peek 0 = .r_paren :=
        (PState.peek_of_shares (hshu.trans hran.ext.shares) hran.cursor).trans hclose
      refine (expect_hit hclosew (by decide)).bind ?_
      rintro _ _ ⟨-, rfl⟩
      obtain ⟨rs, -, hrs, -⟩ := hran.ext.valid.tree
      refine (alloc_node (s := w.moved) hrs).mono ?_
      rintro y t ⟨-, herr, -, hnode⟩
      unfold ParenRun
      rw [if_neg (by simpa using hcomma)]
      exact ⟨(herr.trans hran.errors).trans herru, x :: xs, _, Or.inr ⟨v, .mk hrun hafter⟩,
        ⟨hnode.data, hnode.children, hnode.given⟩⟩
    · obtain ⟨rfl, rfl, rfl⟩ := htail.of_not_comma (by simpa using hcomma)
      have hcloseu : u.stream.peek 0 = .r_paren := hpeeku.trans hclose
      refine (expect_hit hcloseu (by decide)).bind ?_
      rintro _ _ ⟨-, rfl⟩
      refine Yields.pure ?_
      unfold ParenRun
      rw [if_pos ⟨rfl, rfl⟩]
      exact ⟨herru, (hextu.valid.moved hcloseu (by decide)).allow _, rfl, Or.inr ⟨u, .mk hrun .nil⟩⟩

/-! ### The three positions -/

/-- All three results are the node of the only element, or all three are tuple nodes. -/
def ClassifiedAlike (n : ℕ) (s₁ s₂ s₃ : PState) (is₁ is₂ is₃ : List ℕ)
    (r₁ r₂ r₃ : NodeIndex × PState) : Prop :=
  (Groups (run n (.expr 0)) (s₁.moved.allow true) is₁ r₁.1 ∧
    Groups (run n .type) s₂.moved is₂ r₂.1 ∧ Groups (run n .pat) s₃.moved is₃ r₃.1) ∨
  (MakesTuple .TupleExpr (run n (.expr 0)) (s₁.moved.allow true) is₁ r₁.1 r₁.2 ∧
    MakesTuple .TupleType (run n .type) s₂.moved is₂ r₂.1 r₂.2 ∧
    MakesTuple .TuplePat (run n .pat) s₃.moved is₃ r₃.1 r₃.2)

/-- What the three productions do. -/
structure ThreeRuns (n : ℕ) (s₁ s₂ s₃ : PState) (is₁ is₂ is₃ : List ℕ) (b : Bool)
    (r₁ r₂ r₃ : NodeIndex × PState) : Prop where
  expr : parsePrefixExpr n (run n) s₁ = .ok r₁
  type : run (n + 1) .type s₂ = .ok r₂
  pat : run (n + 1) .pat s₃ = .ok r₃
  paren : ParenRun n s₁ is₁ b r₁.1 r₁.2
  tupleType : TupleRun .TupleType .type n s₂ s₂.moved is₂ r₂.1 r₂.2
  tuplePat : TupleRun .TuplePat .pat n s₃ s₃.moved is₃ r₃.1 r₃.2
  valid : r₂.2.Valid

theorem three_runs (hs₁ : s₁.Valid) (hs₂ : s₂.Valid) (hs₃ : s₃.Valid)
    (h₁ : Parenthesised s₁ (s₁.allow true) (.expr 0) is₁ b) (h₂ : Parenthesised s₂ s₂ .type is₂ b)
    (h₃ : Parenthesised s₃ s₃ .pat is₃ b) :
    ∃ d, ∀ n ≥ d, ∃ r₁ r₂ r₃, ThreeRuns n s₁ s₂ s₃ is₁ is₂ is₃ b r₁ r₂ r₃ := by
  obtain ⟨d₁, hd₁⟩ := paren_run hs₁ h₁
  obtain ⟨d₂, hd₂⟩ := type_tuple_run hs₂ h₂
  obtain ⟨d₃, hd₃⟩ := pat_tuple_run hs₃ h₃
  refine ⟨max (max d₁ d₂) (max d₃ s₂.depth), fun n hn => ?_⟩
  obtain ⟨x₁, t₁, hrun₁, hx₁⟩ := hd₁ n (by omega)
  have hvalid := @PState.Valid.runs s₂ (n + 1) .type hs₂ trivial (by omega)
  obtain ⟨x₂, t₂, hrun₂, hx₂, hext, -⟩ := (hd₂ n (by omega)).and hvalid
  obtain ⟨x₃, t₃, hrun₃, hx₃⟩ := hd₃ n (by omega)
  exact ⟨(x₁, t₁), (x₂, t₂), (x₃, t₃), hrun₁, hrun₂, hrun₃, hx₁, hx₂, hx₃, hext.valid⟩

theorem ThreeRuns.silent {r₁ r₂ r₃ : NodeIndex × PState}
    (h : ThreeRuns n s₁ s₂ s₃ is₁ is₂ is₃ b r₁ r₂ r₃) :
    r₁.2.errors = s₁.errors ∧ r₂.2.errors = s₂.errors ∧ r₃.2.errors = s₃.errors := by
  refine ⟨?_, h.tupleType.errors, h.tuplePat.errors⟩
  have hparen := h.paren
  unfold ParenRun at hparen
  split_ifs at hparen
  · exact hparen.1
  · exact hparen.errors

theorem ThreeRuns.alike_iff {r₁ r₂ r₃ : NodeIndex × PState}
    (h : ThreeRuns n s₁ s₂ s₃ is₁ is₂ is₃ b r₁ r₂ r₃) (hlen₂ : is₂.length = is₁.length)
    (hlen₃ : is₃.length = is₁.length) : ClassifiedAlike n s₁ s₂ s₃ is₁ is₂ is₃ r₁ r₂ r₃ ↔
      (is₁.length ≠ 1 ∨ b = true) ∧ is₁.length ≤ 65535 := by
  have hnot : ¬ Groups (run n .type) s₂.moved is₂ r₂.1 := h.tupleType.not_groups h.valid
  have hparen := h.paren
  unfold ParenRun at hparen
  split_ifs at hparen with hone
  · -- One element without a comma: only the expression is its element.
    obtain ⟨-, hvalid, hgroups⟩ := hparen
    refine ⟨?_, fun hcond => ?_⟩
    · rintro (⟨-, htype, -⟩ | ⟨hexpr, -, -⟩)
      · exact (hnot htype).elim
      · exact (hgroups.not_tuple hvalid hexpr).elim
    · rcases hcond.1 with hlen | hb
      · exact (hlen hone.1).elim
      · rw [hone.2] at hb
        cases hb
  · have hcond : is₁.length ≠ 1 ∨ b = true := by
      by_cases hlen : is₁.length = 1
      · exact Or.inr (by simpa [hlen] using hone)
      · exact Or.inl hlen
    refine ⟨?_, fun hle => Or.inr ⟨hparen.makes hle.2, h.tupleType.makes (hlen₂ ▸ hle.2),
      h.tuplePat.makes (hlen₃ ▸ hle.2)⟩⟩
    rintro (⟨-, htype, -⟩ | ⟨hexpr, -, -⟩)
    · exact (hnot htype).elim
    · refine ⟨hcond, ?_⟩
      by_contra hmany
      exact hparen.not_makes (not_le.mp hmany) hexpr

theorem parens_agree_iff (hs₁ : s₁.Valid) (hs₂ : s₂.Valid) (hs₃ : s₃.Valid)
    (h₁ : Parenthesised s₁ (s₁.allow true) (.expr 0) is₁ b) (h₂ : Parenthesised s₂ s₂ .type is₂ b)
    (h₃ : Parenthesised s₃ s₃ .pat is₃ b) (hlen₂ : is₂.length = is₁.length)
    (hlen₃ : is₃.length = is₁.length) : ∃ d, ∀ n ≥ d, ∃ r₁ r₂ r₃,
      parsePrefixExpr n (run n) s₁ = .ok r₁ ∧ run (n + 1) .type s₂ = .ok r₂ ∧
      run (n + 1) .pat s₃ = .ok r₃ ∧
      (r₁.2.errors = s₁.errors ∧ r₂.2.errors = s₂.errors ∧ r₃.2.errors = s₃.errors) ∧
      (ClassifiedAlike n s₁ s₂ s₃ is₁ is₂ is₃ r₁ r₂ r₃ ↔
        (is₁.length ≠ 1 ∨ b = true) ∧ is₁.length ≤ 65535) := by
  obtain ⟨d, hd⟩ := three_runs hs₁ hs₂ hs₃ h₁ h₂ h₃
  refine ⟨d, fun n hn => ?_⟩
  obtain ⟨r₁, r₂, r₃, hruns⟩ := hd n hn
  exact ⟨r₁, r₂, r₃, hruns.expr, hruns.type, hruns.pat, hruns.silent, hruns.alike_iff hlen₂ hlen₃⟩

/-- The state at the beginning of `(a,b,)`. -/
def parenPair : PState := initialState (.fresh [byteToken .l_paren 0, byteToken .identifier 1,
  byteToken .comma 2, byteToken .identifier 3, byteToken .comma 4, byteToken .r_paren 5] [] []) .new

theorem parenPair_expr : Parenthesised parenPair (parenPair.allow true) (.expr 0) [1, 3] true :=
  .elements rfl (.mk (name_clean rfl rfl le_rfl)
    (.more rfl rfl (name_clean rfl rfl le_rfl) (.trailing rfl rfl))) rfl

theorem parenPair_type : Parenthesised parenPair parenPair .type [1, 3] true :=
  .elements rfl (.mk (name_type_clean rfl rfl)
    (.more rfl rfl (name_type_clean rfl rfl) (.trailing rfl rfl))) rfl

theorem parenPair_pat : Parenthesised parenPair parenPair .pat [1, 3] true :=
  .elements rfl (.mk (name_pat_clean rfl rfl)
    (.more rfl rfl (name_pat_clean rfl rfl) (.trailing rfl rfl))) rfl

theorem parens_agree_iff_pair : ∃ d, ∀ n ≥ d, ∃ r₁ r₂ r₃,
    parsePrefixExpr n (run n) parenPair = .ok r₁ ∧ run (n + 1) .type parenPair = .ok r₂ ∧
    run (n + 1) .pat parenPair = .ok r₃ ∧
    (r₁.2.errors = parenPair.errors ∧ r₂.2.errors = parenPair.errors ∧
      r₃.2.errors = parenPair.errors) ∧
    (ClassifiedAlike n parenPair parenPair parenPair [1, 3] [1, 3] [1, 3] r₁ r₂ r₃ ↔
      ([1, 3].length ≠ 1 ∨ true = true) ∧ [1, 3].length ≤ 65535) :=
  have hvalid : parenPair.Valid := .initial _ _ _ _
  parens_agree_iff hvalid hvalid hvalid parenPair_expr parenPair_type parenPair_pat rfl rfl

/-- The state at the beginning of `(a)`. -/
def parenName : PState := initialState (.fresh [byteToken .l_paren 0, byteToken .identifier 1,
  byteToken .r_paren 2] [] []) .new

theorem parenName_expr : Parenthesised parenName (parenName.allow true) (.expr 0) [1] false :=
  .elements rfl (.mk (name_clean rfl rfl le_rfl) (.stop (by decide))) rfl

theorem parenName_type : Parenthesised parenName parenName .type [1] false :=
  .elements rfl (.mk (name_type_clean rfl rfl) (.stop (by decide))) rfl

theorem parenName_pat : Parenthesised parenName parenName .pat [1] false :=
  .elements rfl (.mk (name_pat_clean rfl rfl) (.stop (by decide))) rfl

/-- `(a)` groups as an expression and is a tuple of one element as a type and as a pattern. -/
theorem parens_disagree : ¬ ∀ s₁ s₂ s₃ is₁ is₂ is₃ b, s₁.Valid → s₂.Valid → s₃.Valid →
    Parenthesised s₁ (s₁.allow true) (.expr 0) is₁ b → Parenthesised s₂ s₂ .type is₂ b →
    Parenthesised s₃ s₃ .pat is₃ b → is₂.length = is₁.length → is₃.length = is₁.length →
    ∃ d, ∀ n ≥ d, ∃ r₁ r₂ r₃, parsePrefixExpr n (run n) s₁ = .ok r₁ ∧
      run (n + 1) .type s₂ = .ok r₂ ∧ run (n + 1) .pat s₃ = .ok r₃ ∧
      ClassifiedAlike n s₁ s₂ s₃ is₁ is₂ is₃ r₁ r₂ r₃ := by
  intro hclaim
  have hvalid : parenName.Valid := .initial _ _ _ _
  obtain ⟨d, hd⟩ := hclaim _ _ _ _ _ _ _ hvalid hvalid hvalid parenName_expr parenName_type
    parenName_pat rfl rfl
  obtain ⟨d', hd'⟩ := three_runs hvalid hvalid hvalid parenName_expr parenName_type parenName_pat
  obtain ⟨r₁, r₂, r₃, h₁, h₂, h₃, halike⟩ := hd (max d d') (le_max_left _ _)
  obtain ⟨r₁', r₂', r₃', hruns⟩ := hd' (max d d') (le_max_right _ _)
  obtain rfl : r₁ = r₁' := Except.ok.inj (h₁.symm.trans hruns.expr)
  obtain rfl : r₂ = r₂' := Except.ok.inj (h₂.symm.trans hruns.type)
  obtain rfl : r₃ = r₃' := Except.ok.inj (h₃.symm.trans hruns.pat)
  have hcond := (hruns.alike_iff rfl rfl).mp halike
  simp at hcond

end Eter.Parser
