import Eter.ParserSteps
import Eter.ParseExprs

/-!
# What the loops over lists and paths do to the invariant

Every further turn of a loop consumes a token, so a loop has enough turns when there are more of
them than unread tokens.
-/

namespace Eter.Parser
open Stateful Brackets Diag

variable {w : Watch} {b e q n : ℕ} {st : List Bracket} {hs : Held} {s : PState}
  {c : Cat} {m : ParserM NodeIndex} {close : Token.Kind}

/-- With at most `b` unread tokens, `m` succeeds and makes a node of category `c`. -/
def Parses (w : Watch) (b : ℕ) (c : Cat) (m : ParserM NodeIndex) : Prop :=
  ∀ b' ≤ b, ∀ e q st hs s, Holds w b' e q st hs s →
    Yields m (fun i s' => Holds w b' e q st (hs ++ [(i, c)]) s') s

/-- Before a token in `p`, `m` consumes a token. -/
def Progresses (w : Watch) (b : ℕ) (c : Cat) (p : Token.Kind → Prop) (m : ParserM NodeIndex) :
    Prop :=
  ∀ b' ≤ b, ∀ e q st hs s, Holds w b' e q st hs s → p (s.stream.peek 0) →
    Yields m (fun i s' => Holds w (b' - 1) e q st (hs ++ [(i, c)]) s') s

/-- Nodes of one category. -/
def holding (c : Cat) (is : List NodeIndex) : Held := is.map fun i => (i, c)

@[simp] theorem holding_nil : holding c [] = [] := rfl

@[simp] theorem indices_holding (is : List NodeIndex) : Held.indices (holding c is) = is := by
  simp [Held.indices, holding, Function.comp_def]

theorem append_holding_concat (hs : Held) (is : List NodeIndex) (i : NodeIndex) :
    hs ++ holding c (is ++ [i]) = hs ++ holding c is ++ [(i, c)] := by
  simp [holding]

@[simp] theorem length_holding (is : List NodeIndex) : (holding c is).length = is.length :=
  List.length_map _

theorem cat_of_mem_holding {is : List NodeIndex} {p : NodeIndex × Cat} (hp : p ∈ holding c is) :
    p.2 = c := by
  obtain ⟨i, -, rfl⟩ := List.mem_map.mp hp
  rfl

theorem fits_holding (is : List NodeIndex) :
    Layout.Fits (fun c p => p.2 = c) [.many c] (holding c is) :=
  Layout.Fits.many_last fun _ hp => cat_of_mem_holding hp

/-- A node that is there counts as pushed. -/
theorem Holds.holding_pushed {i : NodeIndex} (h : Holds w b e q st (hs ++ [(i, c)]) s)
    (hnull : c.nullable = false) : Holds w b e q st (hs ++ holding c (pushed i)) s := by
  obtain ⟨rs, -, hg⟩ := h.tree
  obtain ⟨j, r, rfl, -⟩ := hg.record_of_held (List.mem_append_right _ (List.mem_singleton_self _))
    hnull
  exact h

/-! ### Lists of elements -/

/-- The elements a loop has appended to `children`, and the budget it has left. -/
def Appended (w : Watch) (b e q : ℕ) (st : List Bracket) (hs : Held) (c : Cat)
    (children : List NodeIndex) (v : ℕ) (acc : List NodeIndex) (s : PState) : Prop :=
  v ≤ b ∧ ∃ es, acc = children ++ es ∧ Holds w v e q st (hs ++ holding c es) s

/-- The elements of a list that is complete. -/
def Collected (w : Watch) (b e q : ℕ) (st : List Bracket) (hs : Held) (c : Cat)
    (children acc : List NodeIndex) (s : PState) : Prop :=
  ∃ es, acc = children ++ es ∧ Holds w b e q st (hs ++ holding c es) s

theorem Appended.start (h : Holds w b e q st hs s) (children : List NodeIndex) :
    Appended w b e q st hs c children b children s :=
  ⟨le_rfl, [], (List.append_nil _).symm, by simpa using h⟩

theorem Collected.none (h : Holds w b e q st hs s) (children : List NodeIndex) :
    Collected w b e q st hs c children children s :=
  ⟨[], (List.append_nil _).symm, by simpa using h⟩

theorem Collected.push {children acc : List NodeIndex} {es : List NodeIndex} {i : NodeIndex}
    (hacc : acc = children ++ es) {v : ℕ} (hv : v ≤ b)
    (h : Holds w v e q st (hs ++ holding c es ++ [(i, c)]) s) :
    Collected w b e q st hs c children (acc ++ [i]) s := by
  refine ⟨es ++ [i], ?_, ?_⟩
  · rw [hacc, List.append_assoc]
  · rw [append_holding_concat]
    exact h.more hv

theorem Appended.push {children acc : List NodeIndex} {es : List NodeIndex} {i : NodeIndex}
    (hacc : acc = children ++ es) {v : ℕ} (hv : v ≤ b)
    (h : Holds w v e q st (hs ++ holding c es ++ [(i, c)]) s) :
    Appended w b e q st hs c children v (acc ++ [i]) s := by
  refine ⟨hv, es ++ [i], ?_, ?_⟩
  · rw [hacc, List.append_assoc]
  · rwa [append_holding_concat]

theorem Holds.resyncElement {before : ℕ} (h : Holds w b before q st hs s) :
    Yields (resyncElement close before) (fun _ s' => Holds w b before q st hs s') s := by
  unfold Parser.resyncElement skipToComma
  refine Yields.read rfl ?_
  split_ifs with hne
  · have herr : 1 ≤ s.errors.length := by
      have hle := h.errors
      omega
    have h' : Holds w b (max before 1) q st hs s := { h with errors := max_le h.errors herr }
    exact (h'.skipUntil (le_max_right _ _) _).mono fun _ s' h' => h'.fewer (le_max_left _ _)
  · exact Yields.pure h

theorem commaTurn_spec (hm : Parses w b c m) {children acc : List NodeIndex} {v : ℕ}
    (h : Appended w b e q st hs c children v acc s) :
    Yields (commaTurn close m acc) (fun r s' => r.Leads
      (fun acc' => ∃ v' < v, Appended w b e q st hs c children v' acc' s')
      (fun acc' => Collected w b e q st hs c children acc' s')) s := by
  obtain ⟨hv, es, hacc, h⟩ := h
  have he := h.errors
  unfold commaTurn
  refine Yields.read rfl ?_
  refine (hm v hv _ _ _ _ _ h.exactErrors).bind fun i s₁ h₁ => ?_
  refine h₁.resyncElement.bind fun _ s₂ h₂ => ?_
  have h₂' := h₂.fewer he
  refine (h₂'.consume (k := .comma) rfl).bind ?_
  rintro _ s₃ (⟨rfl, hk, h₃⟩ | ⟨rfl, rfl, -⟩)
  · have hpos := h₂'.pos (by rw [hk]; decide)
    rw [if_neg (by decide)]
    refine Yields.read rfl ?_
    split_ifs
    · exact Yields.pure (Collected.push hacc (by omega) h₃)
    · exact Yields.pure ⟨v - 1, by omega, Appended.push hacc (by omega) h₃⟩
  · exact Yields.pure (Collected.push hacc hv h₂')

theorem Parses.commaSeparated (hm : Parses w b c m) (hn : b < n) (h : Holds w b e q st hs s)
    (children : List NodeIndex) :
    Yields (parseCommaSeparated n children close m)
      (fun acc s' => Collected w b e q st hs c children acc s') s := by
  unfold parseCommaSeparated
  refine Yields.read rfl (Yields.read rfl ?_)
  split_ifs
  · exact Yields.pure (Collected.none h children)
  · exact Yields.iterate (I := Appended w b e q st hs c children)
      (fun _ _ _ hI => commaTurn_spec hm hI) hn (Appended.start h children)

theorem moreTurn_spec {stop : Token.Kind → Bool} (hm : Parses w b c m)
    {children acc : List NodeIndex} {v : ℕ} (h : Appended w b e q st hs c children v acc s) :
    Yields (moreTurn stop m acc) (fun r s' => r.Leads
      (fun acc' => ∃ v' < v, Appended w b e q st hs c children v' acc' s')
      (fun acc' => Collected w b e q st hs c children acc' s')) s := by
  obtain ⟨hv, es, hacc, h⟩ := h
  unfold moreTurn
  refine (h.consume (k := .comma) rfl).bind ?_
  rintro _ s₁ (⟨rfl, hk, h₁⟩ | ⟨rfl, rfl, -⟩)
  · have hpos := h.pos (by rw [hk]; decide)
    rw [if_neg (by decide)]
    refine Yields.read rfl ?_
    split_ifs
    · exact Yields.pure ⟨es, hacc, h₁.more (by omega)⟩
    · refine (hm (v - 1) (by omega) _ _ _ _ _ h₁).bind fun i s₂ h₂ => ?_
      exact Yields.pure ⟨v - 1, by omega, Appended.push hacc (by omega) h₂⟩
  · exact Yields.pure ⟨es, hacc, h.more hv⟩

theorem Parses.moreElements (hm : Parses w b c m) (hn : b < n) (h : Holds w b e q st hs s)
    (children : List NodeIndex) (stop : Token.Kind → Bool) :
    Yields (parseMore n children stop m)
      (fun acc s' => Collected w b e q st hs c children acc s') s :=
  Yields.iterate (I := Appended w b e q st hs c children)
    (fun _ _ _ hI => moreTurn_spec hm hI) hn (Appended.start h children)

theorem untilTurn_spec (hm : Progresses w b c (· ≠ .eof) m) {children acc : List NodeIndex} {v : ℕ}
    (h : Appended w b e q st hs c children v acc s) :
    Yields (untilTurn close m acc) (fun r s' => r.Leads
      (fun acc' => ∃ v' < v, Appended w b e q st hs c children v' acc' s')
      (fun acc' => Collected w b e q st hs c children acc' s')) s := by
  obtain ⟨hv, es, hacc, h⟩ := h
  unfold untilTurn
  refine Yields.read rfl (Yields.read rfl ?_)
  split_ifs with hstop
  · exact Yields.pure ⟨es, hacc, h.more hv⟩
  · have hatEof : s.stream.atEof = false := by
      simp only [Bool.or_eq_true, not_or, Bool.not_eq_true] at hstop
      exact hstop.2
    have hne := peek_ne_eof hatEof
    have hpos := h.pos hne
    refine (hm v hv _ _ _ _ _ h hne).bind fun i s₁ h₁ => ?_
    exact Yields.pure ⟨v - 1, by omega, Appended.push hacc (by omega) h₁⟩

theorem Progresses.elements (hm : Progresses w b c (· ≠ .eof) m) (hn : b < n) (h : Holds w b e q st hs s)
    (children : List NodeIndex) :
    Yields (parseUntil n children close m)
      (fun acc s' => Collected w b e q st hs c children acc s') s :=
  Yields.iterate (I := Appended w b e q st hs c children)
    (fun _ _ _ hI => untilTurn_spec hm hI) hn (Appended.start h children)

/-! ### Paths -/

theorem Holds.skipRedundantSeparators (h : Holds w b e q st hs s) (hn : b < n) :
    Yields (skipRedundantSeparators n) (fun _ s' => Holds w b e q st hs s') s := by
  refine Yields.iterate (I := fun v _ s => v ≤ b ∧ Holds w v e q st hs s) ?_ hn ⟨le_rfl, h⟩
  rintro v _ s ⟨hv, h⟩
  unfold redundantTurn
  refine Yields.read rfl ?_
  split_ifs with hc
  · have hk : s.stream.peek 0 = .colon_colon := by simpa [TokenStream.check] using hc
    have hpos := h.pos (by rw [hk]; decide)
    refine Yields.read rfl ?_
    refine (h.addError _ _).bind ?_
    rintro _ s₁ ⟨h₁, hs₁⟩
    refine (h₁.advance (k := .colon_colon) (by rw [hs₁]; exact hk) rfl).bind fun _ s₂ h₂ => ?_
    exact Yields.pure ⟨v - 1, by omega, by omega, h₂.fewer (Nat.le_succ e)⟩
  · exact Yields.pure (h.more hv)

theorem Holds.parsePathSegments (h : Holds w b e q st hs s) (hn : b < n) (span : Span) :
    Yields (parsePathSegments n span) (fun _ s' => Holds w b e q st hs s') s := by
  refine Yields.iterate (I := fun v _ s => v ≤ b ∧ Holds w v e q st hs s) ?_ hn ⟨le_rfl, h⟩
  rintro v acc s ⟨hv, h⟩
  unfold segmentTurn
  refine Yields.read rfl ?_
  split_ifs with hc
  · have hk : s.stream.peek 0 = .colon_colon := by simpa [TokenStream.check] using hc
    have hpos := h.pos (by rw [hk]; decide)
    refine (h.advance hk rfl).bind fun _ s₁ h₁ => ?_
    refine (h₁.skipRedundantSeparators (by omega)).bind fun _ s₂ h₂ => ?_
    refine (h₂.expect (k := .identifier) rfl _ _).bind fun _ s₃ h₃ => ?_
    exact Yields.read rfl (Yields.pure ⟨v - 1, by omega, by omega, h₃.1⟩)
  · exact Yields.pure (h.more hv)

/-! ### Doc comments -/

theorem Holds.parseDocs (h : Holds w b e q st hs s) (hn : b < n) {tokenKind : Token.Kind}
    {nodeKind : NodeKind} (hk : tokenKind = .doc_comment ∧ nodeKind = .DocComment ∧ c = .doc ∨
      tokenKind = .file_doc_comment ∧ nodeKind = .FileDocComment ∧ c = .fileDoc) :
    Yields (parseDocs n tokenKind nodeKind)
      (fun docs s' => Holds w b e q st (hs ++ holding c docs) s' ∧
        (docs ≠ [] → Holds w (b - 1) e q st (hs ++ holding c docs) s')) s := by
  refine Yields.iterate (I := fun v docs s => v ≤ b ∧ (docs ≠ [] → v ≤ b - 1) ∧
    Holds w v e q st (hs ++ holding c docs) s) ?_ hn
    ⟨le_rfl, fun hne => (hne rfl).elim, by simpa using h⟩
  rintro v docs s ⟨hv, hv', h⟩
  unfold docTurn
  refine Yields.read rfl ?_
  split_ifs with hc
  · have hpeek : s.stream.peek 0 = tokenKind := by simpa [TokenStream.check] using hc
    have hsym : symOf tokenKind = .neutral := by rcases hk with ⟨rfl, _⟩ | ⟨rfl, _⟩ <;> rfl
    have hpos := h.pos (by rw [hpeek]; rcases hk with ⟨rfl, _⟩ | ⟨rfl, _⟩ <;> decide)
    refine (h.advance hpeek (by rw [hsym]; rfl)).bind fun tok s₁ h₁ => ?_
    refine (h₁.internText _).bind fun text s₂ h₂ => ?_
    refine (h₂.1.allocLeaf (c := c) ?_ ?_ ?_).bind fun i s₃ h₃ => ?_
    · rcases hk with ⟨-, rfl, -⟩ | ⟨-, rfl, -⟩ <;> rfl
    · rcases hk with ⟨-, rfl, -⟩ | ⟨-, rfl, -⟩ <;> exact .nil
    · rcases hk with ⟨-, rfl, rfl⟩ | ⟨-, rfl, rfl⟩ <;> rfl
    · refine Yields.pure ⟨v - 1, by omega, by omega, fun _ => by omega, ?_⟩
      rwa [append_holding_concat]
  · exact Yields.pure ⟨h.more hv, fun hne => h.more (hv' hne)⟩

theorem Holds.parseDocComments (h : Holds w b e q st hs s) (hn : b < n) :
    Yields (parseDocComments n) (fun docs s' => Holds w b e q st (hs ++ holding .doc docs) s' ∧
      (docs ≠ [] → Holds w (b - 1) e q st (hs ++ holding .doc docs) s')) s :=
  h.parseDocs hn (Or.inl ⟨rfl, rfl, rfl⟩)

theorem Holds.parseFileDocComments (h : Holds w b e q st hs s) (hn : b < n) :
    Yields (parseFileDocComments n)
      (fun docs s' => Holds w b e q st (hs ++ holding .fileDoc docs) s') s :=
  (h.parseDocs hn (Or.inr ⟨rfl, rfl, rfl⟩)).mono fun _ _ h' => h'.1

/-! ### Recursion -/

/-- What a production may rely on when it calls others with `n` levels left. Calls before any token
is consumed go down in the order declaration, block, statement, expression, except that a block may
be called at its brace, and `if` always is at its keyword. -/
structure Recurses (w : Watch) (n : ℕ) (rec : Rec) : Prop where
  expr : ∀ {b m}, 0 ≤ m → 4 * b + 2 ≤ n → Parses w b .expr (rec (.expr m))
  exprMoves : ∀ {b m}, 0 ≤ m → 4 * b + 2 ≤ n →
    Progresses w b .expr (fun k => isSync k = false ∧ k ≠ .eof) (rec (.expr m))
  type : ∀ {b}, 4 * b + 2 ≤ n → Parses w b .type (rec .type)
  pat : ∀ {b}, 4 * b + 2 ≤ n → Parses w b .pat (rec .pat)
  patMoves : ∀ {b}, 4 * b + 2 ≤ n → Progresses w b .pat (· ≠ .eof) (rec .pat)
  stmt : ∀ {b}, 4 * b + 3 ≤ n → Progresses w b .stmt (· ≠ .eof) (rec .stmt)
  block : ∀ {b}, 4 * b + 4 ≤ n → Parses w b .block (rec .block)
  blockMoves : ∀ {b}, 4 * b + 1 ≤ n → Progresses w b .block (· = .l_brace) (rec .block)
  ifMoves : ∀ {b}, 4 * b + 1 ≤ n → Progresses w b .ifExpr (· = .kw_if) (rec .ifExpr)
  topLevelDecl : ∀ {b}, 4 * b + 5 ≤ n → Progresses w b .decl (· ≠ .eof) (rec .topLevelDecl)

theorem Parses.yields (hm : Parses w b c m) (h : Holds w b e q st hs s) :
    Yields m (fun i s' => Holds w b e q st (hs ++ [(i, c)]) s') s :=
  hm b le_rfl e q st hs s h

theorem Progresses.yields {p : Token.Kind → Prop} (hm : Progresses w b c p m)
    (h : Holds w b e q st hs s) (hp : p (s.stream.peek 0)) :
    Yields m (fun i s' => Holds w (b - 1) e q st (hs ++ [(i, c)]) s') s :=
  hm b le_rfl e q st hs s h hp

end Eter.Parser
