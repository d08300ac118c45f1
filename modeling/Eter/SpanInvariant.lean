import Eter.TwinInvariant

/-!
# Where nodes lie in the text

Tokens lie in the text one behind the other. A node that is built between two places of the stream
lies in the text between them, and its children lie in it one behind the other, but for its
documentation, which lies before it.
-/

namespace Eter.Parser
open Stateful Diag

/-! ### The places of tokens -/

/-- Tokens in the order of the text. -/
structure Ground where
  side : Side
  size : ℕ
  ordered : ∀ i, (side.tokenAt i).tokenSpan.start ≤ (side.tokenAt i).tokenSpan.end
  apart : ∀ i, (side.tokenAt i).tokenSpan.end ≤ (side.tokenAt (i + 1)).tokenSpan.start
  inside : ∀ i, (side.tokenAt i).tokenSpan.end ≤ size

namespace Ground

variable (g : Ground) {i j : ℕ}

def kind (i : ℕ) : Token.Kind := (g.side.tokenAt i).tokenKind

/-- Where token `i` starts. -/
def start (i : ℕ) : ℕ := (g.side.tokenAt i).tokenSpan.start

/-- Where the token before token `i` ends. -/
def before : ℕ → ℕ
  | 0 => 0
  | i + 1 => (g.side.tokenAt i).tokenSpan.end

/-- The span of token `i`. -/
def span (i : ℕ) : Span := ⟨g.start i, g.before (i + 1)⟩

theorem before_le_start (i : ℕ) : g.before i ≤ g.start i := by
  cases i with
  | zero => exact Nat.zero_le _
  | succ i => exact g.apart i

theorem start_le_before (i : ℕ) : g.start i ≤ g.before (i + 1) := g.ordered i

theorem before_mono (h : i ≤ j) : g.before i ≤ g.before j := by
  induction j, h using Nat.le_induction with
  | base => exact le_rfl
  | succ j _ ih => exact ih.trans ((g.before_le_start j).trans (g.start_le_before j))

theorem start_mono (h : i ≤ j) : g.start i ≤ g.start j := by
  induction j, h using Nat.le_induction with
  | base => exact le_rfl
  | succ j _ ih => exact ih.trans ((g.start_le_before j).trans (g.before_le_start (j + 1)))

theorem before_le_start_of_le (h : i ≤ j) : g.before i ≤ g.start j :=
  (g.before_mono h).trans (g.before_le_start j)

theorem start_le_before_of_lt (h : i < j) : g.start i ≤ g.before j :=
  (g.start_le_before i).trans (g.before_mono h)

theorem before_le_size (i : ℕ) : g.before i ≤ g.size := by
  cases i with
  | zero => exact Nat.zero_le _
  | succ i => exact g.inside i

/-- Past the last token nothing follows. -/
theorem before_of_length_le (h : g.side.tokens.length ≤ i) : g.before (i + 1) = g.before i := by
  show (g.side.tokenAt i).tokenSpan.end = _
  rw [Side.tokenAt_of_length_le h]
  cases i with
  | zero =>
    have hnil : g.side.tokens = [] := List.length_eq_zero_iff.mp (by omega)
    rw [hnil]
    rfl
  | succ k =>
    show _ = (g.side.tokenAt k).tokenSpan.end
    rcases Nat.lt_or_ge k g.side.tokens.length with hk | hk
    · have hlen : k = g.side.tokens.length - 1 := by omega
      have hget := List.getElem?_eq_getElem hk
      rw [Side.tokenAt_of_getElem? hget, List.getLast?_eq_getElem?, ← hlen, hget]
      rfl
    · rw [Side.tokenAt_of_length_le hk]

end Ground

/-- A span that is not inverted and lies in the buffer. -/
def Proper (size : ℕ) (x : Span) : Prop := x.start ≤ x.end ∧ x.end ≤ size

/-! ### Nodes in the text -/

/-- A node with its span that is no documentation. -/
def NodePool.Lies (p : NodePool) (i : NodeIndex) (x : Span) : Prop :=
  p.spanOf? i = some x ∧ ∃ d, p.get? i = some d ∧ d.kind ≠ .DocComment

/-- Documentation that ends at `b` at the latest. -/
def NodePool.Docs (p : NodePool) (b : ℕ) (docs : List NodeIndex) : Prop :=
  ∀ i ∈ docs, ∃ x, p.spanOf? i = some x ∧ x.end ≤ b ∧ ∃ d, p.get? i = some d ∧ d.kind = .DocComment

/-- Nodes between two places, one behind the other. -/
def NodePool.Row (p : NodePool) : ℕ → ℕ → List NodeIndex → Prop
  | a, b, [] => a ≤ b
  | a, b, none :: is => p.Row a b is
  | a, b, some i :: is => ∃ x, p.Lies (some i) x ∧ a ≤ x.start ∧ x.start ≤ x.end ∧ p.Row x.end b is

/-- Children within a span, behind the documentation before it. -/
def NodePool.Nests (p : NodePool) (x : Span) (kids : List NodeIndex) : Prop :=
  ∃ docs rest, kids = docs ++ rest ∧ p.Docs x.start docs ∧ p.Row x.start x.end rest

/-- What one pool knows the other one knows too. -/
structure NodePool.Within (p p' : NodePool) : Prop where
  nodes : ∀ i d, p.get? i = some d → p'.get? i = some d
  spans : ∀ i x, p.spanOf? i = some x → p'.spanOf? i = some x

variable {p p' : NodePool} {a a' b b' c : ℕ} {x : Span} {i : NodeIndex} {is js : List NodeIndex}

theorem NodePool.Within.refl (p : NodePool) : p.Within p := ⟨fun _ _ h => h, fun _ _ h => h⟩

theorem NodePool.Within.trans {q : NodePool} (h : p.Within p') (h' : p'.Within q) : p.Within q :=
  ⟨fun i d hd => h'.nodes i d (h.nodes i d hd), fun i x hx => h'.spans i x (h.spans i x hx)⟩

theorem NodePool.Within.lies (h : p.Within p') (hi : p.Lies i x) : p'.Lies i x := by
  obtain ⟨hx, d, hd, hkind⟩ := hi
  exact ⟨h.spans i x hx, d, h.nodes i d hd, hkind⟩

theorem NodePool.Within.docs (h : p.Within p') (hd : p.Docs b is) : p'.Docs b is := by
  intro i hi
  obtain ⟨x, hx, hle, d, hdata, hkind⟩ := hd i hi
  exact ⟨x, h.spans i x hx, hle, d, h.nodes i d hdata, hkind⟩

theorem NodePool.Within.row (h : p.Within p') (hr : p.Row a b is) : p'.Row a b is := by
  induction is generalizing a with
  | nil => exact hr
  | cons i is ih =>
    cases i with
    | none => exact ih hr
    | some i =>
      obtain ⟨x, hx, hle, hord, hrest⟩ := hr
      exact ⟨x, h.lies hx, hle, hord, ih hrest⟩

theorem NodePool.Within.nests (h : p.Within p') (hn : p.Nests x is) : p'.Nests x is := by
  obtain ⟨docs, rest, heq, hdocs, hrest⟩ := hn
  exact ⟨docs, rest, heq, h.docs hdocs, h.row hrest⟩

theorem NodePool.Docs.widen (h : p.Docs b is) (hb : b ≤ b') : p.Docs b' is := by
  intro i hi
  obtain ⟨x, hx, hle, hd⟩ := h i hi
  exact ⟨x, hx, hle.trans hb, hd⟩

theorem NodePool.Row.le (h : p.Row a b is) : a ≤ b := by
  induction is generalizing a with
  | nil => exact h
  | cons i is ih =>
    cases i with
    | none => exact ih h
    | some i =>
      obtain ⟨x, -, hle, hord, hrest⟩ := h
      exact hle.trans (hord.trans (ih hrest))

theorem NodePool.Row.from (h : p.Row a b is) (ha : a' ≤ a) : p.Row a' b is := by
  induction is with
  | nil => exact ha.trans h
  | cons i is ih =>
    cases i with
    | none => exact ih h
    | some i =>
      obtain ⟨x, hx, hle, hrest⟩ := h
      exact ⟨x, hx, ha.trans hle, hrest⟩

theorem NodePool.Row.append (h : p.Row a b is) (h' : p.Row b c js) : p.Row a c (is ++ js) := by
  induction is generalizing a with
  | nil => exact h'.from h
  | cons i is ih =>
    cases i with
    | none => exact ih h
    | some i =>
      obtain ⟨x, hx, hle, hord, hrest⟩ := h
      exact ⟨x, hx, hle, hord, ih hrest⟩

theorem NodePool.Row.to (h : p.Row a b is) (hb : b ≤ b') : p.Row a b' is := by
  have hnil : p.Row b b' [] := hb
  simpa using h.append hnil

theorem NodePool.Row.one (h : p.Lies i x) (hx : x.start ≤ x.end) : p.Row x.start x.end [i] := by
  cases i with
  | none => cases h.1
  | some i => exact ⟨x, h, le_rfl, hx, le_rfl⟩

/-! ### States -/

/-- No gapped parameter made an improper span yet. -/
def PState.Fine (s : PState) : Prop := .gappedParam ∈ s.slips → s.errors = []

def PState.Clean (s : PState) : Prop := s.errors = []

theorem PState.Clean.fine {s : PState} (h : s.Clean) : s.Fine := fun _ => h

/-- What the parser has built and knows stays. -/
structure PState.Later (s s' : PState) : Prop where
  forward : s.stream.cursor ≤ s'.stream.cursor
  pool : s.pool.Within s'.pool
  errors : s.errors <+: s'.errors
  slips : s.slips <+: s'.slips
  names : ∀ id text, s.interner.get? id = some text → s'.interner.get? id = some text

variable {s s' s'' : PState}

theorem PState.Later.refl (s : PState) : s.Later s :=
  ⟨le_rfl, .refl _, List.prefix_rfl, List.prefix_rfl, fun _ _ h => h⟩

theorem PState.Later.trans (h : s.Later s') (h' : s'.Later s'') : s.Later s'' where
  forward := h.forward.trans h'.forward
  pool := h.pool.trans h'.pool
  errors := h.errors.trans h'.errors
  slips := h.slips.trans h'.slips
  names id text hid := h'.names id text (h.names id text hid)

theorem PState.Later.clean (h : s.Later s') (hs : s'.Clean) : s.Clean := by
  have herrors := h.errors
  rw [show s'.errors = [] from hs] at herrors
  exact List.prefix_nil.mp herrors

theorem PState.Later.fine (h : s.Later s') (hs : s'.Fine) : s.Fine :=
  fun hmem => h.clean (hs (h.slips.subset hmem))

/-- At token `c`: all spans are proper until a gapped parameter makes one that is not, and children
nest until an error is reported. -/
structure Good (g : Ground) (c : ℕ) (s : PState) : Prop where
  tokens : s.stream.tokens = g.side.tokens
  cursor : s.stream.cursor = c
  records : ∃ rs, s.pool = poolOf rs ∧ (s.Fine → ∀ r ∈ rs, Proper g.size r.span) ∧
    (s.Clean → ∀ r ∈ rs, s.pool.Nests r.span r.kids)
  errors : ∀ d ∈ s.errors, Proper g.size d.loc ∧ ∀ l ∈ d.labels, Proper g.size l.diagSpan
  exposed : .gappedParam ∈ s.slips → s.errors ≠ [] ∧
    ∃ i x, s.pool.spanOf? i = some x ∧ x.end < x.start

/-- The span of a node that was built between tokens `a` and `b`. -/
def Spot (g : Ground) (s : PState) (a b : ℕ) (i : NodeIndex) (x : Span) : Prop :=
  s.pool.Lies i x ∧ (s.Fine → g.start a ≤ x.start ∧ x.start ≤ x.end ∧
    g.before (a + 1) ≤ x.end ∧ x.end ≤ g.before (b + 1)) ∧ (s.Clean → x.end ≤ g.before b)

/-- A node that was built between tokens `a` and `b`. -/
def Placed (g : Ground) (s : PState) (a b : ℕ) (i : NodeIndex) : Prop := ∃ x, Spot g s a b i x

/-- Children that lie in a row, as long as no error is reported. -/
def Kids (s : PState) (x y : ℕ) (is : List NodeIndex) : Prop := s.Clean → s.pool.Row x y is

/-- Documentation that ends at `b` at the latest, as long as no error is reported. -/
def DocKids (s : PState) (b : ℕ) (docs : List NodeIndex) : Prop := s.Clean → s.pool.Docs b docs

variable {g : Ground} {y : ℕ}

theorem Spot.later (h : Spot g s a b i x) (hle : s.Later s') : Spot g s' a b i x := by
  obtain ⟨hx, hfine, hclean⟩ := h
  exact ⟨hle.pool.lies hx, fun hs => hfine (hle.fine hs), fun hs => hclean (hle.clean hs)⟩

theorem Placed.later (h : Placed g s a b i) (hle : s.Later s') : Placed g s' a b i := by
  obtain ⟨x, hx⟩ := h
  exact ⟨x, hx.later hle⟩

theorem Spot.widen (h : Spot g s a b i x) (ha : a' ≤ a) (hb : b ≤ b') : Spot g s a' b' i x := by
  obtain ⟨hx, hfine, hclean⟩ := h
  refine ⟨hx, fun hs => ?_, fun hs => (hclean hs).trans (g.before_mono hb)⟩
  obtain ⟨hstart, hord, hlow, hhigh⟩ := hfine hs
  exact ⟨(g.start_mono ha).trans hstart, hord, (g.before_mono (by omega)).trans hlow,
    hhigh.trans (g.before_mono (by omega))⟩

theorem Placed.widen (h : Placed g s a b i) (ha : a' ≤ a) (hb : b ≤ b') : Placed g s a' b' i := by
  obtain ⟨x, hx⟩ := h
  exact ⟨x, hx.widen ha hb⟩

theorem Kids.later (h : Kids s a b is) (hle : s.Later s') : Kids s' a b is :=
  fun hs => hle.pool.row (h (hle.clean hs))

theorem Kids.to (h : Kids s a b is) (hb : b ≤ b') : Kids s a b' is := fun hs => (h hs).to hb

theorem Kids.from (h : Kids s a b is) (ha : a' ≤ a) : Kids s a' b is := fun hs => (h hs).from ha

theorem Kids.none (h : a ≤ b) : Kids s a b [] := fun _ => h

theorem Kids.append (h : Kids s a b is) (h' : Kids s b c js) : Kids s a c (is ++ js) :=
  fun hs => (h hs).append (h' hs)

theorem Placed.kids (h : Placed g s a b i) : Kids s (g.start a) (g.before b) [i] := by
  intro hs
  obtain ⟨x, hx, hfine, hclean⟩ := h
  obtain ⟨hstart, hord, -, -⟩ := hfine hs.fine
  exact ((NodePool.Row.one hx hord).from hstart).to (hclean hs)

/-- A child behind the others. -/
theorem Kids.push {m : ℕ} (h : Kids s y (g.before m) is) (hi : Kids s (g.start a) (g.before b) [i])
    (hm : m ≤ a) : Kids s y (g.before b) (is ++ [i]) :=
  (h.to (g.before_le_start_of_le hm)).append hi

theorem DocKids.later (h : DocKids s b is) (hle : s.Later s') : DocKids s' b is :=
  fun hs => hle.pool.docs (h (hle.clean hs))

theorem DocKids.widen (h : DocKids s b is) (hb : b ≤ b') : DocKids s b' is :=
  fun hs => (h hs).widen hb

theorem DocKids.none : DocKids s b [] := fun _ _ hi => nomatch hi

end Eter.Parser
