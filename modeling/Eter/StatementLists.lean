import Eter.Insertions

/-!
# Statements in blocks

The statements of a block, one behind another, and what the loop over them builds.
-/

namespace Eter.Parser
open Stateful NodePool Diag

variable {s s₁ s₂ t t₁ t₂ u v : PState} {n m i j e : ℕ} {close : Token.Kind} {x y : NodeIndex}
  {el : ParserM NodeIndex} {xs ys : List NodeIndex} {tr : SyntaxTree} {ts us : List SyntaxTree}
  {es es' : List PhaseDiagnostic}

/-! ### The loop over the elements -/

/-- The loop goes on from `s` to `t` and appends `xs`. -/
def Gathers (close : Token.Kind) (el : ParserM NodeIndex) (s : PState) (xs : List NodeIndex)
    (t : PState) : Prop :=
  ∀ m acc, Parser.iterate (untilTurn close el) (m + xs.length) acc s =
    Parser.iterate (untilTurn close el) m (acc ++ xs) t

theorem Gathers.nil (s : PState) : Gathers close el s [] s := by
  intro m acc
  rw [List.append_nil]
  rfl

theorem Gathers.one (hclose : s.stream.peek 0 ≠ close) (heof : s.stream.peek 0 ≠ .eof)
    (hrun : el s = .ok (x, t)) : Gathers close el s [x] t := by
  intro m acc
  have hturn : untilTurn close el acc s = .ok (.again (acc ++ [x]), t) := by
    show (if (s.stream.check close || s.stream.atEof) = true then Pure.pure (Turn.done acc)
      else el >>= fun element => Pure.pure (Turn.again (acc ++ [element])) : ParserM _) s = _
    have hcheck : s.stream.check close = false := decide_eq_false hclose
    have hend : s.stream.atEof = false := decide_eq_false heof
    rw [hcheck, hend, if_neg (by decide)]
    show (el s >>= fun p => Except.ok (Turn.again (acc ++ [p.1]), p.2)) = _
    rw [hrun]
    rfl
  show (untilTurn close el acc s >>= _) = _
  rw [hturn]
  rfl

theorem Gathers.trans (h : Gathers close el s xs t) (h' : Gathers close el t ys u) :
    Gathers close el s (xs ++ ys) u := by
  intro m acc
  rw [List.length_append, Nat.add_comm xs.length, ← Nat.add_assoc, h, h', List.append_assoc]

theorem Gathers.done (h : Gathers close el s xs t) (hclose : t.stream.peek 0 = close)
    (hn : xs.length < n) : parseUntil n [] close el s = .ok (xs, t) := by
  obtain ⟨m, rfl⟩ : ∃ m, n = m + 1 + xs.length := ⟨n - 1 - xs.length, by omega⟩
  have hcheck : t.stream.check close = true := decide_eq_true hclose
  unfold Parser.parseUntil
  rw [h]
  show (if (t.stream.check close || t.stream.atEof) = true then Pure.pure (Turn.done ([] ++ xs))
    else _ : ParserM (Turn (List NodeIndex) (List NodeIndex))) t >>= _ = _
  rw [hcheck, Bool.true_or, if_pos rfl]
  rfl

/-! ### Lists of statements -/

/-- From `t` to `u` the loop over statements builds the nodes `xs`, which stand for the trees `ts`,
and reports `es`. -/
structure Listed (n : ℕ) (t : PState) (xs : List NodeIndex) (ts : List SyntaxTree)
    (es : List PhaseDiagnostic) (u : PState) : Prop where
  gathers : Gathers .r_brace (run n .stmt) t xs u
  later : t.Extends u
  keeps : t.Keeps u
  names : t.Remembers u
  errors : u.errors = t.errors ++ es
  trees : List.Forall₂ u.Denotes xs ts

theorem PState.Keeps.trans (h : s.Keeps t) (h' : t.Keeps u) : s.Keeps u := by
  intro i d hd
  obtain ⟨ht, hkids⟩ := h i d hd
  obtain ⟨hu, hkids'⟩ := h' i d ht
  exact ⟨hu, hkids'.trans hkids⟩

theorem Listed.nil (h : t.Valid) : Listed n t [] [] [] t :=
  ⟨.nil t, h.refl, fun _ _ hd => ⟨hd, rfl⟩, fun _ _ hid => hid, (List.append_nil _).symm, .nil⟩

theorem Listed.trans (h : Listed n t xs ts es u) (h' : Listed n u ys us es' v) :
    Listed n t (xs ++ ys) (ts ++ us) (es ++ es') v where
  gathers := h.gathers.trans h'.gathers
  later := h.later.trans h'.later
  keeps := h.keeps.trans h'.keeps
  names _ _ hid := h'.names _ _ (h.names _ _ hid)
  errors := by rw [h'.errors, h.errors, List.append_assoc]
  trees := List.rel_append (h.trees.imp fun _ _ hd => hd.later h'.keeps h'.names) h'.trees

theorem Listed.of_run (ht : t.Valid) (hclose : t.stream.peek 0 ≠ .r_brace)
    (heof : t.stream.peek 0 ≠ .eof) (hrun : run n .stmt t = .ok (x, u)) (hext : t.Extends u)
    (herr : u.errors = t.errors ++ es) (htr : u.Denotes x tr) : Listed n t [x] [tr] es u where
  gathers := .one hclose heof hrun
  later := hext
  keeps := (precedes_grow.walk.of_call n (by decide) _ _ _ hrun).keeps ht
  names := remembers_grow.walk.of_call n (by decide) _ _ _ hrun
  errors := herr
  trees := .cons htr .nil

/-- `m` statements without errors from token `i` to token `j`. -/
inductive Statements (s : PState) : ℕ → ℕ → ℕ → Prop where
  | nil (i : ℕ) : Statements s i 0 i
  | cons {i j e m : ℕ} (h : Clean s .stmt i j) (hs : Statements s j m e) : Statements s i (m + 1) e

theorem Statements.forward (h : Statements s i m j) (hs : s.Valid) : i ≤ j := by
  induction h with
  | nil => exact le_rfl
  | cons h _ ih => exact (h.stmt_forward hs).le.trans ih

/-- Statements that are read alike one by one are read alike. -/
theorem Statements.listed (lo hi shift : ℕ) (h : Statements s₁ i m j) (hs₁ : s₁.Valid)
    (hkind : ∀ i, lo ≤ i → i < hi → s₂.kindAt (i + shift) = s₁.kindAt i)
    (hread : ∀ i j, Clean s₁ .stmt i j → lo ≤ i → j ≤ hi →
      ∃ d, ∀ n ≥ d, ReadAlike n s₁ s₂ .stmt i j (i + shift) (j + shift))
    (hlo : lo ≤ i) (hhi : j ≤ hi) : ∃ d, ∀ n ≥ d, ∀ t₁ t₂, t₁.Valid → t₂.Valid → s₁.Shares t₁ →
      s₂.Shares t₂ → t₁.stream.cursor = i → t₂.stream.cursor = i + shift → ∃ xs₁ u₁ xs₂ u₂ ts,
        ts.length = m ∧ (Listed n t₁ xs₁ ts [] u₁ ∧ u₁.stream.cursor = j) ∧
          Listed n t₂ xs₂ ts [] u₂ ∧ u₂.stream.cursor = j + shift := by
  induction h with
  | nil i =>
    exact ⟨0, fun n _ t₁ t₂ ht₁ ht₂ _ _ hc₁ hc₂ =>
      ⟨[], t₁, [], t₂, [], rfl, ⟨.nil ht₁, hc₁⟩, .nil ht₂, hc₂⟩⟩
  | @cons i j e m hclean hrest ih =>
    have hforward := hclean.stmt_forward hs₁
    have hle := hrest.forward hs₁
    obtain ⟨d, hd⟩ := hread i j hclean hlo (by omega)
    obtain ⟨d', hd'⟩ := ih (by omega) hhi
    refine ⟨max d d', fun n hn t₁ t₂ ht₁ ht₂ h₁ h₂ hc₁ hc₂ => ?_⟩
    obtain ⟨x₁, u₁, x₂, u₂, tr, hrun₁, hrun₂, ⟨hext₁, hj₁, herr₁, htr₁⟩, hext₂, hj₂, herr₂, htr₂⟩ :=
      hd n (le_of_max_le_left hn) t₁ t₂ ht₁ ht₂ h₁ h₂ hc₁ hc₂
    obtain ⟨xs₁, v₁, xs₂, v₂, ts, hlen, ⟨hlist₁, he₁⟩, hlist₂, he₂⟩ := hd' n (le_of_max_le_right hn)
      u₁ u₂ hext₁.valid hext₂.valid (h₁.trans hext₁.shares) (h₂.trans hext₂.shares) hj₁ hj₂
    have hstart := hclean.stmt_starts
    have hne : s₁.kindAt i ≠ .r_brace ∧ s₁.kindAt i ≠ .eof := by
      constructor <;> intro hk <;> rw [hk] at hstart <;> cases hstart
    have hpeek₁ : t₁.stream.peek 0 = s₁.kindAt i := PState.peek_of_shares h₁ hc₁
    have hpeek₂ : t₂.stream.peek 0 = s₁.kindAt i := by
      rw [PState.peek_of_shares h₂ hc₂, hkind i hlo (by omega)]
    have hone₁ : Listed n t₁ [x₁] [tr] [] u₁ :=
      .of_run ht₁ (hpeek₁ ▸ hne.1) (hpeek₁ ▸ hne.2) hrun₁ hext₁ (by rw [herr₁, List.append_nil]) htr₁
    have hone₂ : Listed n t₂ [x₂] [tr] [] u₂ :=
      .of_run ht₂ (hpeek₂ ▸ hne.1) (hpeek₂ ▸ hne.2) hrun₂ hext₂ (by rw [herr₂, List.append_nil]) htr₂
    exact ⟨x₁ :: xs₁, v₁, x₂ :: xs₂, v₂, tr :: ts, by rw [List.length_cons, hlen],
      ⟨hone₁.trans hlist₁, he₁⟩, hone₂.trans hlist₂, he₂⟩

/-! ### The block around them -/

/-- The children of a node that stands for a tree. -/
theorem PState.Denotes.length {kind : NodeKind} {flags rest : ℕ} {name : Option Bytes}
    (h : s.Denotes x (.node kind flags name rest ts)) :
    ts.length = (s.pool.childrenOf x).length := by
  cases h
  assumption

/-- A new node stands for the trees of the children it keeps. -/
theorem alloc_denotes (hs : s.Valid) {kind : NodeKind} {span : Span} {payload flags rest : ℕ}
    {name : Option Bytes} (hc : Carries s.interner (encodingOf kind) payload name rest)
    (hts : List.Forall₂ s.Denotes xs ts) : Yields (alloc kind span xs payload flags) (fun x t =>
      t.stream = s.stream ∧ t.errors = s.errors ∧ t.pool.childrenOf x = xs.take (xs.length % 2 ^ 16) ∧
        t.Denotes x (.node kind flags name rest (ts.take (xs.length % 2 ^ 16)))) s := by
  obtain ⟨rs, -, hp, -⟩ := hs.tree
  have hrun := alloc_records hp kind span xs payload flags
  have hkeeps := (precedes_grow.walk.alloc kind span xs payload flags s _ _ hrun).keeps hs
  have hrec : (rs ++ [(⟨kind, span, xs, payload, flags⟩ : NodeRecord)])[rs.length]? =
      some ⟨kind, span, xs, payload, flags⟩ := List.getElem?_concat_length
  have hkids := childrenOf_of_record hrec
  have htake : List.Forall₂ (PState.Denotes _) _ (ts.take (xs.length % 2 ^ 16)) :=
    (List.forall₂_take _ hts).imp fun _ _ hd => hd.later hkeeps fun _ _ hid => hid
  rw [← hkids] at htake
  have hden := PState.Denotes.of_kids (get?_of_record hrec) hc htake
  exact ⟨_, _, hrun, rfl, rfl, hkids, hden⟩

/-- The part of a block behind its opening brace. -/
theorem Listed.closes {kind : NodeKind} {context : String} {start : ℕ}
    (hkind : encodingOf kind = .plain) (h : Listed n t xs ts es u)
    (hclose : u.stream.peek 0 = .r_brace) (hn : xs.length < n) :
    Yields (do
      let children ← parseUntil n [] .r_brace (run n .stmt)
      let close := (← expect .r_brace .ExpectedClose context).tokenSpan
      alloc kind ⟨start, close.end⟩ children 0 0)
    (fun x v => v.stream.cursor = u.stream.cursor + 1 ∧ v.errors = t.errors ++ es ∧
      v.pool.childrenOf x = xs.take (xs.length % 2 ^ 16) ∧
      v.Denotes x (.node kind 0 none 0 (ts.take (xs.length % 2 ^ 16)))) t := by
  refine Yields.bind (R := fun ys v => ys = xs ∧ v = u)
    ⟨xs, u, h.gathers.done hclose hn, rfl, rfl⟩ ?_
  rintro ys v ⟨hys, hv⟩
  rw [hys, hv]
  refine (expect_hit hclose (by decide)).bind ?_
  rintro tok _ ⟨-, rfl⟩
  have hmoved : u.Extends u.moved := h.later.valid.extends_moved hclose (by decide)
  have htrees : List.Forall₂ u.moved.Denotes xs ts :=
    h.trees.imp fun _ _ hd => hd.later (fun _ _ hd => ⟨hd, rfl⟩) fun _ _ hid => hid
  refine (alloc_denotes hmoved.valid (by rw [hkind]; exact .plain 0) htrees).mono ?_
  rintro x v ⟨hstream, herr, hkids, hden⟩
  exact ⟨by rw [hstream]; rfl, herr.trans h.errors, hkids, hden⟩

/-- `{...}` and `unsafe {...}`. -/
inductive BlockForm where
  | block | unsafeBlock

def BlockForm.parse (n : ℕ) : BlockForm → ParserM NodeIndex
  | .block => parseBlockExpr n (run n)
  | .unsafeBlock => parseUnsafeBlock n (run n)

def BlockForm.kind : BlockForm → NodeKind
  | .block => .BlockExpr
  | .unsafeBlock => .UnsafeBlock

/-- The number of tokens up to the opening brace. -/
def BlockForm.width : BlockForm → ℕ
  | .block => 1
  | .unsafeBlock => 2

def BlockForm.OpensAt (s : PState) (i : ℕ) : BlockForm → Prop
  | .block => s.kindAt i = .l_brace
  | .unsafeBlock => s.kindAt i = .kw_unsafe_ ∧ s.kindAt (i + 1) = .l_brace

/-- A block is parsed by the loop over its statements, from the state behind its opening brace. -/
theorem BlockForm.parses (form : BlockForm) (hs : s.Valid) (hopen : form.OpensAt s s.stream.cursor) :
    ∃ t, s.Extends t ∧ t.errors = s.errors ∧ t.stream.cursor = s.stream.cursor + form.width ∧
      ∀ n xs ts es u, Listed n t xs ts es u → u.stream.peek 0 = .r_brace → xs.length < n →
        Yields (form.parse n) (fun x v => v.stream.cursor = u.stream.cursor + 1 ∧
          v.errors = s.errors ++ es ∧ v.pool.childrenOf x = xs.take (xs.length % 2 ^ 16) ∧
          v.Denotes x (.node form.kind 0 none 0 (ts.take (xs.length % 2 ^ 16)))) s := by
  cases form with
  | block =>
    refine ⟨s.moved, hs.extends_moved hopen (by decide), rfl, rfl, ?_⟩
    intro n xs ts es u h hclose hn
    refine (expect_hit hopen (by decide)).bind ?_
    rintro tok _ ⟨-, rfl⟩
    exact h.closes rfl hclose hn
  | unsafeBlock =>
    obtain ⟨hk, hbrace⟩ := hopen
    have hmoved := hs.extends_moved hk (by decide)
    have hbrace : s.moved.stream.peek 0 = .l_brace := hbrace
    refine ⟨s.moved.moved, hmoved.trans (hmoved.valid.extends_moved hbrace (by decide)), rfl, rfl, ?_⟩
    intro n xs ts es u h hclose hn
    refine (expect_hit hk (by decide)).bind ?_
    rintro tok _ ⟨-, rfl⟩
    refine Yields.bind (R := fun _ v => v = s.moved.moved) ?_ ?_
    · refine (consume_hit hbrace (by decide)).bind ?_
      rintro _ _ ⟨rfl, rfl⟩
      exact Yields.pure rfl
    · rintro _ _ rfl
      exact h.closes rfl hclose hn

end Eter.Parser
