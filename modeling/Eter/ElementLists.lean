import Eter.CleanCalls
import Eter.Walks

/-!
# Lists of elements

The loops over elements that are separated by commas, where no element reports anything.
-/

namespace Eter.Parser
open Stateful

variable {s t u v : PState} {n N d i j e : ℕ} {is : List ℕ} {x : NodeIndex} {xs cs : List NodeIndex}
  {P Q : ℕ → ℕ → Prop} {close : Token.Kind → Bool} {b : Bool} {el : ℕ → ParserM NodeIndex}

/-! ### Lists in the stream -/

/-- Elements behind the end `j` of the first one: where they start, where the list ends, and whether
a comma stands before its end. -/
inductive Tail (s : PState) (P : ℕ → ℕ → Prop) (close : Token.Kind → Bool) :
    ℕ → List ℕ → ℕ → Bool → Prop where
  | stop {j : ℕ} (h : s.kindAt j ≠ .comma) : Tail s P close j [] j false
  | trailing {j : ℕ} (h : s.kindAt j = .comma) (hc : close (s.kindAt (j + 1)) = true) :
      Tail s P close j [] (j + 1) true
  | more {j k e : ℕ} {is : List ℕ} {b : Bool} (h : s.kindAt j = .comma)
      (hc : close (s.kindAt (j + 1)) = false) (hp : P (j + 1) k) (ht : Tail s P close k is e b) :
      Tail s P close j ((j + 1) :: is) e b

/-- A list of at least one element. -/
inductive CommaList (s : PState) (P : ℕ → ℕ → Prop) (close : Token.Kind → Bool) :
    List ℕ → ℕ → Bool → Prop where
  | mk {i j e : ℕ} {is : List ℕ} {b : Bool} (hp : P i j) (ht : Tail s P close j is e b) :
      CommaList s P close (i :: is) e b

theorem Tail.mono (h : Tail s P close j is e b) (hPQ : ∀ i k, P i k → Q i k) :
    Tail s Q close j is e b := by
  induction h with
  | stop h => exact .stop h
  | trailing h hc => exact .trailing h hc
  | more h hc hp _ ih => exact .more h hc (hPQ _ _ hp) ih

theorem CommaList.mono (h : CommaList s P close is e b) (hPQ : ∀ i k, P i k → Q i k) :
    CommaList s Q close is e b := by
  obtain ⟨hp, ht⟩ := h
  exact .mk (hPQ _ _ hp) (ht.mono hPQ)

/-- One depth suffices for all elements. -/
theorem Tail.uniform {R : ℕ → ℕ → ℕ → Prop} (h : Tail s (fun i k => ∃ d, R d i k) close j is e b)
    (hmono : ∀ d d' i k, d ≤ d' → R d i k → R d' i k) : ∃ d, Tail s (R d) close j is e b := by
  induction h with
  | stop h => exact ⟨0, .stop h⟩
  | trailing h hc => exact ⟨0, .trailing h hc⟩
  | more h hc hp _ ih =>
    obtain ⟨d, hd⟩ := hp
    obtain ⟨d', hd'⟩ := ih
    exact ⟨max d d', .more h hc (hmono _ _ _ _ (le_max_left _ _) hd)
      (hd'.mono fun _ _ hR => hmono _ _ _ _ (le_max_right _ _) hR)⟩

theorem CommaList.uniform {R : ℕ → ℕ → ℕ → Prop}
    (h : CommaList s (fun i k => ∃ d, R d i k) close is e b)
    (hmono : ∀ d d' i k, d ≤ d' → R d i k → R d' i k) : ∃ d, CommaList s (R d) close is e b := by
  obtain ⟨hp, ht⟩ := h
  obtain ⟨d, hd⟩ := hp
  obtain ⟨d', hd'⟩ := ht.uniform hmono
  exact ⟨max d d', .mk (hmono _ _ _ _ (le_max_left _ _) hd)
    (hd'.mono fun _ _ hR => hmono _ _ _ _ (le_max_right _ _) hR)⟩

theorem CommaList.length_pos (h : CommaList s P close is e b) : 1 ≤ is.length := by
  obtain ⟨-, -⟩ := h
  simp

/-! ### Elements one after another -/

/-- Behind `u` the elements at the tokens `is` are parsed, each behind one token; the last one ends
in `v`. -/
inductive After (el : ParserM NodeIndex) : PState → List ℕ → List NodeIndex → PState → Prop where
  | nil {u : PState} : After el u [] [] u
  | cons {u w v : PState} {x : NodeIndex} {is : List ℕ} {xs : List NodeIndex}
      (hx : el u.moved = .ok (x, w)) (h : After el w is xs v) :
      After el u ((u.stream.cursor + 1) :: is) (x :: xs) v

/-- From `t` on the elements at the tokens `is` give the nodes `xs`; the last one ends in `v`. -/
inductive Sequence (el : ParserM NodeIndex) : PState → List ℕ → List NodeIndex → PState → Prop where
  | mk {t u v : PState} {x : NodeIndex} {is : List ℕ} {xs : List NodeIndex}
      (hx : el t = .ok (x, u)) (h : After el u is xs v) :
      Sequence el t (t.stream.cursor :: is) (x :: xs) v

theorem After.length {el : ParserM NodeIndex} (h : After el u is xs v) : xs.length = is.length := by
  induction h with
  | nil => rfl
  | cons _ _ ih => simp [ih]

theorem Sequence.length {el : ParserM NodeIndex} (h : Sequence el t is xs v) :
    xs.length = is.length := by
  obtain ⟨-, h⟩ := h
  simp [h.length]

/-- The state behind a last comma, if there is one. -/
def PState.past (s : PState) (b : Bool) : PState := if b then s.moved else s

/-- What the loops lead to: the nodes are appended, and a last comma is consumed. -/
structure Ran (u : PState) (b : Bool) (e : ℕ) (v w : PState) : Prop where
  ext : u.Extends w
  cursor : w.stream.cursor = e
  errors : w.errors = u.errors
  last : w = v.past b

theorem Ran.of_extends (h : t.Extends u) (herr : u.errors = t.errors) {w : PState}
    (hran : Ran u b e v w) : Ran t b e v w :=
  ⟨h.trans hran.ext, hran.cursor, hran.errors.trans herr, hran.last⟩

theorem PState.Valid.extends_moved (h : s.Valid) {k : Token.Kind} (hk : s.stream.peek 0 = k)
    (hne : k ≠ .eof) : s.Extends s.moved :=
  ⟨h.moved hk hne, rfl, rfl, rfl, Nat.le_succ _⟩

theorem parseMore_runs (hn : d ≤ n) (h : Tail s (ReadsWith d s el) close j is e b) (hu : u.Valid)
    (hsh : s.Shares u) (hj : u.stream.cursor = j) (hN : is.length + 1 ≤ N) :
    Yields (parseMore N cs close (el n)) (fun ys w => ∃ xs v, ys = cs ++ xs ∧
      After (el n) u is xs v ∧ Ran u b e v w) u := by
  induction h generalizing u cs N with
  | @stop j h =>
    obtain ⟨N, rfl⟩ : ∃ N', N = N' + 1 := ⟨N - 1, by omega⟩
    have hpeek : u.stream.peek 0 ≠ .comma := by rwa [PState.peek_of_shares hsh hj]
    unfold parseMore iterate Stateful.iterate
    refine Yields.bind (R := fun r w => r = .done cs ∧ w = u) ?_ ?_
    · unfold moreTurn
      refine (consume_miss hpeek).bind ?_
      rintro _ _ ⟨rfl, rfl⟩
      exact Yields.pure ⟨rfl, rfl⟩
    · rintro _ _ ⟨rfl, rfl⟩
      exact Yields.pure ⟨[], _, by simp, .nil, hu.refl, hj, rfl, rfl⟩
  | @trailing j h hc =>
    obtain ⟨N, rfl⟩ : ∃ N', N = N' + 1 := ⟨N - 1, by omega⟩
    have hpeek : u.stream.peek 0 = .comma := by rwa [PState.peek_of_shares hsh hj]
    have hnext : u.moved.stream.peek 0 = s.kindAt (j + 1) := by
      refine PState.peek_of_shares ⟨hsh.tokens, hsh.source, hsh.lit⟩ ?_
      rw [← hj]
      rfl
    unfold parseMore iterate Stateful.iterate
    refine Yields.bind (R := fun r w => r = .done cs ∧ w = u.moved) ?_ ?_
    · unfold moreTurn
      refine (consume_hit hpeek (by decide)).bind ?_
      rintro _ _ ⟨rfl, rfl⟩
      refine Yields.read rfl ?_
      rw [hnext, hc]
      exact Yields.pure ⟨rfl, rfl⟩
    · rintro _ _ ⟨rfl, rfl⟩
      refine Yields.pure ⟨[], u, by simp, .nil, hu.extends_moved hpeek (by decide), ?_, rfl, rfl⟩
      rw [← hj]
      rfl
  | @more j k e is b h hc hp ht ih =>
    obtain ⟨N, rfl⟩ : ∃ N', N = N' + 1 := ⟨N - 1, by omega⟩
    have hpeek : u.stream.peek 0 = .comma := by rwa [PState.peek_of_shares hsh hj]
    have hmoved : s.Shares u.moved := ⟨hsh.tokens, hsh.source, hsh.lit⟩
    have hcur : u.moved.stream.cursor = j + 1 := by
      rw [← hj]
      rfl
    have hext := hu.extends_moved hpeek (by decide)
    unfold parseMore iterate Stateful.iterate
    refine Yields.bind (R := fun r w => ∃ x, r = .again (cs ++ [x]) ∧
      el n u.moved = .ok (x, w) ∧ u.Extends w ∧ w.stream.cursor = k ∧ w.errors = u.errors) ?_ ?_
    · unfold moreTurn
      refine (consume_hit hpeek (by decide)).bind ?_
      rintro _ _ ⟨rfl, rfl⟩
      refine Yields.read rfl ?_
      rw [PState.peek_of_shares hmoved hcur, hc]
      refine (hp n hn u.moved hext.valid hmoved hcur).bind ?_
      rintro x w ⟨hrun, hext', -, hk, herr⟩
      exact Yields.pure ⟨x, rfl, hrun, hext.trans hext', hk, herr⟩
    · rintro _ w ⟨x, rfl, hrun, hext', hk, herr⟩
      have hlen : is.length + 1 ≤ N := by simpa using hN
      have hrest : Yields (parseMore N (cs ++ [x]) close (el n)) _ w :=
        ih hext'.valid (hsh.trans hext'.shares) hk hlen
      refine hrest.mono ?_
      rintro ys w' ⟨xs, v, rfl, hafter, hran⟩
      refine ⟨x :: xs, v, by simp, ?_, hran.of_extends hext' herr⟩
      rw [← hj]
      exact .cons hrun hafter

/-! ### Lists with a closing token -/

theorem resyncElement_silent {k : Token.Kind} {m : ℕ} (hm : s.errors.length = m) :
    Yields (resyncElement k m) (fun _ w => w = s) s := by
  unfold resyncElement
  refine Yields.read rfl ?_
  rw [if_neg (by simpa using hm)]
  exact Yields.pure rfl

/-- What a turn does behind its element. -/
def afterElement (close : Token.Kind) (children : List NodeIndex) :
    ParserM (Turn (List NodeIndex) (List NodeIndex)) := do
  if !(← consume .comma) then pure (.done children)
  else if ← check close then pure (.done children)
  else pure (.again children)

theorem commaTurn_element {k : Token.Kind} {m : ParserM NodeIndex}
    {R : Turn (List NodeIndex) (List NodeIndex) → PState → Prop} (hx : m t = .ok (x, u))
    (herr : u.errors = t.errors) (h : Yields (afterElement k (cs ++ [x])) R u) :
    Yields (commaTurn k m cs) R t := by
  unfold commaTurn
  refine Yields.read rfl (Yields.bind (R := fun y w => y = x ∧ w = u) ⟨x, u, hx, rfl, rfl⟩ ?_)
  rintro _ _ ⟨rfl, rfl⟩
  refine (resyncElement_silent (by rw [herr])).bind ?_
  rintro _ _ rfl
  exact h

theorem commaTurns_run {k : Token.Kind} (hn : d ≤ n)
    (h : Tail s (ReadsWith d s el) (· = k) j is e b) (hp : ReadsWith d s el i j) (ht : t.Valid)
    (hsh : s.Shares t) (hi : t.stream.cursor = i) (hN : is.length + 1 ≤ N) :
    Yields (iterate (commaTurn k (el n)) N cs) (fun ys w => ∃ x u xs v, ys = cs ++ x :: xs ∧
      el n t = .ok (x, u) ∧ After (el n) u is xs v ∧ Ran t b e v w) t := by
  induction h generalizing t cs N i with
  | @stop j h =>
    obtain ⟨N, rfl⟩ : ∃ N', N = N' + 1 := ⟨N - 1, by omega⟩
    obtain ⟨x, u, hx, -, hext, -, hj, herr⟩ := hp n hn t ht hsh hi
    have hpeek : u.stream.peek 0 ≠ .comma := by
      rwa [PState.peek_of_shares (hsh.trans hext.shares) hj]
    unfold iterate Stateful.iterate
    refine Yields.bind (R := fun r w => r = .done (cs ++ [x]) ∧ w = u) ?_ ?_
    · refine commaTurn_element hx herr ?_
      unfold afterElement
      refine (consume_miss hpeek).bind ?_
      rintro _ _ ⟨rfl, rfl⟩
      exact Yields.pure ⟨rfl, rfl⟩
    · rintro _ _ ⟨rfl, rfl⟩
      exact Yields.pure ⟨x, _, [], _, rfl, hx, .nil, hext, hj, herr, rfl⟩
  | @trailing j h hc =>
    obtain ⟨N, rfl⟩ : ∃ N', N = N' + 1 := ⟨N - 1, by omega⟩
    obtain ⟨x, u, hx, -, hext, -, hj, herr⟩ := hp n hn t ht hsh hi
    have hsh' := hsh.trans hext.shares
    have hpeek : u.stream.peek 0 = .comma := by rwa [PState.peek_of_shares hsh' hj]
    have hnext : u.moved.stream.peek 0 = s.kindAt (j + 1) := by
      refine PState.peek_of_shares ⟨hsh'.tokens, hsh'.source, hsh'.lit⟩ ?_
      rw [← hj]
      rfl
    unfold iterate Stateful.iterate
    refine Yields.bind (R := fun r w => r = .done (cs ++ [x]) ∧ w = u.moved) ?_ ?_
    · refine commaTurn_element hx herr ?_
      unfold afterElement
      refine (consume_hit hpeek (by decide)).bind ?_
      rintro _ _ ⟨rfl, rfl⟩
      refine Yields.read rfl ?_
      unfold TokenStream.check
      rw [hnext, if_pos hc]
      exact Yields.pure ⟨rfl, rfl⟩
    · rintro _ _ ⟨rfl, rfl⟩
      refine Yields.pure ⟨x, u, [], u, rfl, hx, .nil,
        hext.trans (hext.valid.extends_moved hpeek (by decide)), ?_, herr, rfl⟩
      rw [← hj]
      rfl
  | @more j l e is b h hc hp' _ ih =>
    obtain ⟨N, rfl⟩ : ∃ N', N = N' + 1 := ⟨N - 1, by omega⟩
    obtain ⟨x, u, hx, -, hext, -, hj, herr⟩ := hp n hn t ht hsh hi
    have hsh' := hsh.trans hext.shares
    have hpeek : u.stream.peek 0 = .comma := by rwa [PState.peek_of_shares hsh' hj]
    have hmoved : s.Shares u.moved := ⟨hsh'.tokens, hsh'.source, hsh'.lit⟩
    have hcur : u.moved.stream.cursor = j + 1 := by
      rw [← hj]
      rfl
    have hext' := hext.trans (hext.valid.extends_moved hpeek (by decide))
    unfold iterate Stateful.iterate
    refine Yields.bind (R := fun r w => r = .again (cs ++ [x]) ∧ w = u.moved) ?_ ?_
    · refine commaTurn_element hx herr ?_
      unfold afterElement
      refine (consume_hit hpeek (by decide)).bind ?_
      rintro _ _ ⟨rfl, rfl⟩
      refine Yields.read rfl ?_
      unfold TokenStream.check
      rw [PState.peek_of_shares hmoved hcur, if_neg (by simpa using hc)]
      exact Yields.pure ⟨rfl, rfl⟩
    · rintro _ _ ⟨rfl, rfl⟩
      have hlen : is.length + 1 ≤ N := by simpa using hN
      have hrest : Yields (iterate (commaTurn k (el n)) N (cs ++ [x])) _ u.moved :=
        ih hp' hext'.valid hmoved hcur hlen
      refine hrest.mono ?_
      rintro ys w ⟨y, u', xs, v, rfl, hy, hafter, hran⟩
      refine ⟨x, u, y :: xs, v, by simp, hx, ?_, hran.of_extends hext' herr⟩
      rw [← hj]
      exact .cons hy hafter

/-- A list with a closing token, from its first element on. -/
theorem parseCommaSeparated_runs {k : Token.Kind} (hn : d ≤ n)
    (h : CommaList s (ReadsWith d s el) (· = k) (i :: is) e b) (ht : t.Valid) (hsh : s.Shares t)
    (hi : t.stream.cursor = i) (hopen : s.kindAt i ≠ k) (heof : s.kindAt i ≠ .eof)
    (hN : is.length + 1 ≤ N) :
    Yields (parseCommaSeparated N cs k (el n)) (fun ys w => ∃ xs v, ys = cs ++ xs ∧
      Sequence (el n) t (i :: is) xs v ∧ Ran t b e v w) t := by
  obtain ⟨hp, htail⟩ := h
  have hpeek := PState.peek_of_shares hsh hi
  unfold parseCommaSeparated
  refine Yields.read rfl (Yields.read rfl ?_)
  unfold TokenStream.atEof TokenStream.check
  rw [hpeek, if_neg (by simp [hopen, heof])]
  refine (commaTurns_run hn htail hp ht hsh hi hN).mono ?_
  rintro ys w ⟨x, u, xs, v, rfl, hx, hafter, hran⟩
  refine ⟨x :: xs, v, rfl, ?_, hran⟩
  rw [← hi]
  exact .mk hx hafter

/-! ### Where elements start -/

/-- A run of a call that reports nothing. -/
theorem Clean.run {call : Call} (h : Clean s call i j) : ∃ n x t,
    Parser.run (n + 1) call (s.at i) = .ok (x, t) ∧ t.errors = s.errors := by
  obtain ⟨d, hd⟩ := h
  obtain ⟨x, t, hrun, -, herr⟩ := hd (d + 1) (Nat.le_succ d)
  exact ⟨d, x, t, hrun, herr⟩

theorem Reports.false_of_run {m : ParserM NodeIndex} (hm : Reports m)
    (h : m (s.at i) = .ok (x, t)) (herr : t.errors = s.errors) : False := by
  have hlt := hm _ _ _ h
  rw [herr] at hlt
  exact lt_irrefl _ hlt

/-- The tokens that end a list or an element of one, and the end of the file. -/
def closesElement (k : Token.Kind) : Bool := isSync k || k = .eof

theorem closesElement_cases {k : Token.Kind} (h : closesElement k = true) : k = .semi ∨
    k = .r_brace ∨ k = .r_paren ∨ k = .r_square ∨ k = .comma ∨ k = .eof := by
  simpa [closesElement, isSync, or_assoc] using h

theorem Clean.expr_starts {m : ℤ} (h : Clean s (.expr m) i j) :
    closesElement (s.kindAt i) = false := by
  by_contra hk
  rw [Bool.not_eq_false] at hk
  obtain ⟨n, x, t, hrun, herr⟩ := h.run
  change parseExpr n (Parser.run n) m _ = _ at hrun
  obtain ⟨y, u, hprefix, hrest⟩ := of_bind_ok hrun
  have happ := (appends_walk.iterate (appends_walk.infixTurn (appends_walk.run n) m) n y u x t
    hrest).1
  have hbad : parsePrefixExpr n (Parser.run n) (s.at i) =
      parseBadExpr ((s.at i).stream.peekToken 0) (s.at i) := by
    have hpeek : ((s.at i).stream.peekToken 0).tokenKind = s.kindAt i := peekToken_kind _
    show (if isLiteral ((s.at i).stream.peekToken 0).tokenKind then _ else _ : ParserM _) (s.at i) = _
    rw [hpeek]
    rcases closesElement_cases hk with hk | hk | hk | hk | hk | hk <;> rw [hk] <;> rfl
  rw [hbad] at hprefix
  have hlt := Reports.parseBadExpr _ _ _ _ hprefix
  have hle := happ.errors.length_le
  rw [herr] at hle
  exact absurd hle (by simpa [PState.at] using hlt)

theorem check_bind_eq {α : Type} (k : Token.Kind) (f : Bool → ParserM α) (s : PState) :
    (check k >>= f) s = f (decide (s.stream.peek 0 = k)) s := rfl

theorem Clean.type_starts (h : Clean s .type i j) : closesElement (s.kindAt i) = false := by
  by_contra hk
  rw [Bool.not_eq_false] at hk
  obtain ⟨n, x, t, hrun, herr⟩ := h.run
  refine Reports.false_of_run (i := i) (m := do
    addError (← peekToken).tokenSpan .ExpectedTypeName
    makeErrorNode (← peekToken).tokenSpan) ?_ (x := x) ?_ herr
  · exact .next appends_walk.peekToken fun _ => .first (.report _) fun _ =>
      appends_walk.bind appends_walk.peekToken fun _ => appends_walk.makeErrorNode _
  · rw [← hrun]
    have hpeek : (s.at i).stream.peek 0 = s.kindAt i := rfl
    rcases closesElement_cases hk with hk | hk | hk | hk | hk | hk <;>
      simp [Parser.run, body, parseType, parseNamedType, check_bind_eq, hpeek, hk]

theorem Clean.pat_starts (h : Clean s .pat i j) : closesElement (s.kindAt i) = false := by
  by_contra hk
  rw [Bool.not_eq_false] at hk
  obtain ⟨n, x, t, hrun, herr⟩ := h.run
  refine (Reports.parseBadPat ((s.at i).stream.peekToken 0)).false_of_run (i := i) (x := x) ?_ herr
  rw [← hrun]
  symm
  have hpeek : ((s.at i).stream.peekToken 0).tokenKind = s.kindAt i := peekToken_kind _
  show (if ((s.at i).stream.peekToken 0).tokenKind = .identifier then _ else
    if ((s.at i).stream.peekToken 0).tokenKind = .l_paren then _ else
      if isLiteral ((s.at i).stream.peekToken 0).tokenKind = true then _ else _ : ParserM _) _ = _
  rw [hpeek]
  rcases closesElement_cases hk with hk | hk | hk | hk | hk | hk <;> rw [hk] <;> rfl

/-! ### Lists without errors -/

/-- A list each of whose elements is parsed without errors. -/
abbrev CleanList (s : PState) (call : Call) (close : Token.Kind → Bool) (is : List ℕ) (e : ℕ)
    (b : Bool) : Prop :=
  CommaList s (Clean s call) close is e b

theorem lt_of_startsElement (h : closesElement (s.kindAt i) = false) :
    i < s.stream.tokens.length := by
  refine lt_of_kindAt fun heof => ?_
  rw [heof] at h
  cases h

theorem CleanList.reads {call : Call} (h : CleanList s call close is e b) (hs : s.Valid)
    (hstarts : ∀ i j, Clean s call i j → closesElement (s.kindAt i) = false)
    (hc : ∀ k, Starts k call) :
    ∃ d, CommaList s (ReadsWith d s fun n => run n call) close is e b := by
  have hreads := h.mono (Q := fun i k => ∃ d, ReadsWith d s (fun n => run n call) i k)
    fun i k hik => hik.reads hs (lt_of_startsElement (hstarts i k hik)).le (hc _)
  exact hreads.uniform fun _ _ _ _ hd hR => hR.mono hd

theorem CleanList.head {call : Call} (h : CleanList s call close (i :: is) e b) :
    ∃ j, Clean s call i j := by
  obtain ⟨hp, -⟩ := h
  exact ⟨_, hp⟩

/-! ### Single names -/

theorem parsePathSegments_none {span : Span} (hpath : s.stream.peek 0 ≠ .colon_colon) (hn : 1 ≤ n) :
    Yields (parsePathSegments n span) (fun path t => path = (false, span) ∧ t = s) s := by
  obtain ⟨n, rfl⟩ := Nat.exists_eq_add_of_le' hn
  unfold parsePathSegments iterate Stateful.iterate
  refine Yields.bind (R := fun r t => r = .done (false, span) ∧ t = s) ?_ ?_
  · unfold segmentTurn
    refine Yields.read rfl ?_
    rw [TokenStream.check, if_neg (by simpa using hpath)]
    exact Yields.pure ⟨rfl, rfl⟩
  · rintro _ _ ⟨rfl, rfl⟩
    exact Yields.pure ⟨rfl, rfl⟩

theorem Ends.of_isSync {k : Token.Kind} {m : ℤ} (h : isSync k = true) (hm : 0 ≤ m) : Ends k m := by
  have hneg : (-1 : ℤ) < m := by omega
  rcases closesElement_cases (k := k) (by simp [closesElement, h]) with
    rfl | rfl | rfl | rfl | rfl | rfl <;> exact ⟨rfl, hneg⟩

theorem ne_path_of_isSync {k : Token.Kind} (h : isSync k = true) : k ≠ .colon_colon := by
  rintro rfl
  cases h

/-- A name in front of neither a path nor a struct literal becomes a leaf. -/
theorem parsePrefixExpr_name {Q : NodeIndex → PState → Prop} {rec : Rec} (hk : s.stream.peek 0 = .identifier)
    (hpath : s.moved.stream.peek 0 ≠ .colon_colon) (hbrace : s.moved.stream.peek 0 ≠ .l_brace)
    (hn : 1 ≤ n) (h : ∀ id interner,
      s.interner.intern (s.stream.textOf (s.stream.peekToken 0).tokenSpan) = (id, interner) →
      Yields (allocLeaf .IdentExpr (s.stream.peekToken 0).tokenSpan id) Q
        { s.moved with interner := interner }) : Yields (parsePrefixExpr n rec) Q s := by
  unfold parsePrefixExpr
  refine Yields.read rfl ?_
  rw [peekToken_kind, hk]
  show Yields (parseNameExpr _ _ _) _ _
  unfold parseNameExpr
  refine (advance_of_peek (by rw [hk]; decide)).bind ?_
  rintro _ _ rfl
  refine (parsePathSegments_none hpath hn).bind ?_
  rintro _ _ ⟨rfl, rfl⟩
  refine Yields.bind (R := fun id t => ∃ interner,
    s.interner.intern (s.stream.textOf (s.stream.peekToken 0).tokenSpan) = (id, interner) ∧
      t = { s.moved with interner := interner }) ⟨_, _, rfl, _, rfl, rfl⟩ ?_
  rintro id _ ⟨interner, hid, rfl⟩
  have hcheck : ({ s.moved with interner := interner } : PState).stream.check .l_brace = false :=
    decide_eq_false hbrace
  refine Yields.read rfl (Yields.read rfl ?_)
  rw [hcheck, Bool.and_false, if_neg Bool.false_ne_true]
  exact h id interner hid

/-- A name at the end of an element. -/
theorem name_clean {m : ℤ} (hk : s.kindAt i = .identifier) (hnext : isSync (s.kindAt (i + 1)) = true)
    (hm : 0 ≤ m) : Clean s (.expr m) i (i + 1) := by
  have hbrace : s.kindAt (i + 1) ≠ .l_brace := fun h => by simp [h, isSync] at hnext
  refine ⟨2, fun n hn => ?_⟩
  obtain ⟨n, rfl⟩ : ∃ n', n = n' + 1 + 1 := ⟨n - 2, by omega⟩
  refine expr_of_prefix (by omega) (parsePrefixExpr_name hk (ne_path_of_isSync hnext) hbrace (by omega) ?_)
  exact fun id interner _ => ⟨_, _, rfl, ⟨rfl, rfl⟩, Ends.of_isSync hnext hm⟩

theorem name_type_clean (hk : s.kindAt i = .identifier) (hnext : isSync (s.kindAt (i + 1)) = true) :
    Clean s .type i (i + 1) := by
  refine ⟨2, fun n hn => ?_⟩
  obtain ⟨n, rfl⟩ : ∃ n', n = n' + 1 + 1 := ⟨n - 2, by omega⟩
  have hpeek : (s.at i).stream.peek 0 = .identifier := hk
  show Yields (parseType _ _) _ _
  unfold parseType
  refine Yields.read rfl ?_
  rw [TokenStream.check, hpeek, if_neg (by decide)]
  refine Yields.read rfl ?_
  rw [TokenStream.check, hpeek, if_neg (by decide)]
  refine Yields.read rfl ?_
  rw [TokenStream.check, hpeek, if_neg (by decide)]
  unfold parseNamedType
  refine Yields.read rfl (Yields.read rfl ?_)
  rw [TokenStream.check, TokenStream.check, hpeek, if_neg (by decide)]
  refine (advance_of_peek (by rw [hpeek]; decide)).bind ?_
  rintro _ _ rfl
  refine (parsePathSegments_none (s := (s.at i).moved) ?_ (by omega)).bind ?_
  · exact ne_path_of_isSync hnext
  · rintro _ _ ⟨rfl, rfl⟩
    exact ⟨_, _, rfl, rfl, rfl⟩

theorem name_pat_clean (hk : s.kindAt i = .identifier) (hnext : isSync (s.kindAt (i + 1)) = true) :
    Clean s .pat i (i + 1) := by
  refine ⟨2, fun n hn => ?_⟩
  obtain ⟨n, rfl⟩ : ∃ n', n = n' + 1 + 1 := ⟨n - 2, by omega⟩
  have hpeek : (s.at i).stream.peek 0 = .identifier := hk
  have hadvance := advance_of_peek (s := s.at i) (by rw [hpeek]; decide)
  show Yields (parsePat _ _) _ _
  unfold parsePat
  refine Yields.read rfl ?_
  rw [peekToken_kind, hpeek, if_pos rfl]
  unfold parseNamePat
  refine Yields.read rfl ?_
  split_ifs
  · refine hadvance.bind ?_
    rintro _ _ rfl
    exact ⟨_, _, rfl, rfl, rfl⟩
  · refine hadvance.bind ?_
    rintro _ _ rfl
    refine (parsePathSegments_none (s := (s.at i).moved) (ne_path_of_isSync hnext) (by omega)).bind ?_
    rintro _ _ ⟨rfl, rfl⟩
    refine Yields.bind (R := fun _ t => t.stream = (s.at i).moved.stream ∧ t.errors = s.errors)
      ⟨_, _, rfl, rfl, rfl⟩ fun name t ht => ?_
    have hcheck : ∀ k, isSync k = false → t.stream.check k = false := by
      intro k hsync
      rw [ht.1]
      refine decide_eq_false fun heq => ?_
      rw [show s.kindAt (i + 1) = k from heq, hsync] at hnext
      cases hnext
    refine Yields.read rfl ?_
    rw [hcheck .l_paren rfl, if_neg (by simp)]
    refine Yields.read rfl ?_
    rw [hcheck .l_brace rfl, if_neg (by simp)]
    exact ⟨_, _, rfl, by rw [ht.1]; rfl, ht.2⟩

end Eter.Parser
