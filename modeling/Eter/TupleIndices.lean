import Eter.ElementLists
import Eter.DottedIndices

/-!
# Chains of tuple indices

Behind a dot an integer literal is one index, and a float literal is taken apart into two of them.
-/

namespace Eter.Parser
open Stateful

variable {s t u : PState} {n i : ℕ} {lhs x y : NodeIndex} {rec : Rec} {text : Bytes}
  {texts texts' : List Bytes} {rs rs' : List NodeRecord} {kind kind' : NodeKind}
  {kids kids' : List NodeIndex} {payload payload' : ℕ}

/-! ### Nodes that stay -/

theorem PState.Node.record (h : s.Node x kind kids payload) (hp : s.pool = poolOf rs) :
    ∃ i r, x = some i ∧ rs[i]? = some r ∧ r.kind = kind ∧ r.kids = kids ∧ r.payload = payload := by
  obtain ⟨d, hd, rfl, rfl⟩ := h.data
  have hgiven := h.given
  rw [hp] at hd hgiven
  cases x with
  | none => cases hd
  | some i =>
    rw [poolOf_get?] at hd
    obtain ⟨r, hr, rfl⟩ := Option.map_eq_some_iff.mp hd
    rw [givenTo_of_record hr] at hgiven
    exact ⟨i, r, rfl, hr, rfl, hgiven, rfl⟩

theorem PState.Node.unique (h : s.Node x kind kids payload) (h' : s.Node x kind' kids' payload') :
    kids = kids' ∧ payload = payload' := by
  obtain ⟨d, hd, -, rfl⟩ := h.data
  obtain ⟨d', hd', -, rfl⟩ := h'.data
  rw [hd] at hd'
  cases hd'
  exact ⟨h.given.symm.trans h'.given, rfl⟩

/-- Nodes were allocated behind the old ones, and names keep their texts. -/
structure PState.Appended (s t : PState) : Prop where
  records : ∀ rs, s.pool = poolOf rs → ∃ rs', t.pool = poolOf (rs ++ rs')
  names : ∀ id text, s.interner.get? id = some text → t.interner.get? id = some text

theorem PState.Appended.refl (s : PState) : s.Appended s :=
  ⟨fun rs h => ⟨[], by rw [h, List.append_nil]⟩, fun _ _ h => h⟩

theorem PState.Appended.trans (h : s.Appended t) (h' : t.Appended u) : s.Appended u where
  records rs hrs := by
    obtain ⟨rs', hrs'⟩ := h.records rs hrs
    obtain ⟨rs'', hrs''⟩ := h'.records _ hrs'
    exact ⟨rs' ++ rs'', by rw [hrs'', List.append_assoc]⟩
  names id text hid := h'.names id text (h.names id text hid)

/-- The pool is built by `alloc`, and nodes are older than their parents. -/
def PState.Ordered (s : PState) : Prop :=
  ∃ rs, s.pool = poolOf rs ∧ ∀ i (r : NodeRecord), rs[i]? = some r → ∀ j, some j ∈ r.kids → j < i

theorem PState.Valid.ordered (h : s.Valid) : s.Ordered := by
  obtain ⟨rs, hs, hp, hg⟩ := h.tree
  refine ⟨rs, hp, fun i r hr j hj => ?_⟩
  have hrefs : (rs.map fun r => refs r.kids)[i]? = some (refs r.kids) := by
    rw [List.getElem?_map, hr]
    rfl
  exact (hg.forest.older i _ hrefs j (List.mem_filterMap.mpr ⟨some j, hj, rfl⟩)).2

theorem PState.Node.appended (h : s.Node x kind kids payload) (hs : s.Ordered)
    (hst : s.Appended t) : t.Node x kind kids payload := by
  obtain ⟨rs, hp, -⟩ := hs
  obtain ⟨rs', hp'⟩ := hst.records rs hp
  obtain ⟨i, r, rfl, hr, rfl, rfl, rfl⟩ := h.record hp
  refine node_of_record hp' ?_
  rw [List.getElem?_append_left (List.getElem?_eq_some_iff.mp hr).1, hr]

/-! ### Chains -/

/-- The node `x` is `base` with tuple indices around it, whose texts are `texts` from the inside. -/
inductive IndexChain (s : PState) (base : NodeIndex) : NodeIndex → List Bytes → Prop where
  | base : IndexChain s base base []
  | index {y x : NodeIndex} {texts : List Bytes} {id : InternedStr} {text : Bytes}
      (h : IndexChain s base y texts) (hx : s.Node x .TupleIndexExpr [y] id)
      (hid : s.interner.get? id = some text) : IndexChain s base x (texts ++ [text])

theorem IndexChain.appended (h : IndexChain s lhs x texts) (hs : s.Ordered) (hst : s.Appended t) :
    IndexChain t lhs x texts := by
  induction h with
  | base => exact .base
  | index _ hx hid ih => exact .index ih (hx.appended hs hst) (hst.names _ _ hid)

theorem IndexChain.trans {texts texts' : List Bytes} (h : IndexChain s lhs x texts)
    (h' : IndexChain s x y texts') : IndexChain s lhs y (texts ++ texts') := by
  induction h' with
  | base => simpa using h
  | index _ hx hid ih =>
    rw [← List.append_assoc]
    exact .index ih hx hid

/-- A chain leads to younger nodes. -/
theorem IndexChain.younger {l : ℕ} (h : IndexChain s (some l) x texts) (hs : s.Ordered) :
    x = some l ∧ texts = [] ∨ ∃ i, x = some i ∧ l < i := by
  induction h with
  | base => exact Or.inl ⟨rfl, rfl⟩
  | @index y x texts id text h hx hid ih =>
    obtain ⟨rs, hp, holder⟩ := hs
    obtain ⟨i, r, rfl, hr, -, hkids, -⟩ := hx.record hp
    have hy : ∀ k, y = some k → k < i := by
      rintro k rfl
      exact holder i r hr k (by rw [hkids]; exact List.mem_singleton_self _)
    refine Or.inr ⟨i, rfl, ?_⟩
    rcases ih with ⟨hyl, -⟩ | ⟨k, hyk, hlt⟩
    · exact hy l hyl
    · exact hlt.trans (hy k hyk)

theorem IndexChain.unique {l : ℕ} (h : IndexChain s (some l) x texts)
    (h' : IndexChain s (some l) x texts') (hs : s.Ordered) : texts = texts' := by
  induction h generalizing texts' with
  | base =>
    rcases h'.younger hs with ⟨-, hnil⟩ | ⟨i, hi, hlt⟩
    · exact hnil.symm
    · cases hi
      exact (lt_irrefl _ hlt).elim
  | @index y x texts id text h hx hid ih =>
    cases h' with
    | base =>
      rcases (IndexChain.index h hx hid).younger hs with ⟨-, hnil⟩ | ⟨i, hi, hlt⟩
      · exact hnil
      · cases hi
        exact (lt_irrefl _ hlt).elim
    | @index y' x' texts' id' text' h' hx' hid' =>
      obtain ⟨hkids, rfl⟩ := hx.unique hx'
      cases hkids
      rw [hid] at hid'
      cases hid'
      rw [ih h']

/-! ### One index -/

theorem PState.Has.index (h : s.Has x) : ∃ l, x = some l := by
  obtain ⟨span, hspan⟩ := h
  cases x with
  | none => cases hspan
  | some l => exact ⟨l, rfl⟩

theorem PState.Has.lt {l : ℕ} (h : s.Has (some l)) (hp : s.pool = poolOf rs) : l < rs.length := by
  obtain ⟨span, hspan⟩ := h
  rw [hp] at hspan
  have hsome : (poolOf rs).spans[l]? = some span := hspan
  rw [poolOf_spans] at hsome
  simpa using (List.getElem?_eq_some_iff.mp hsome).1

/-- A new node whose children are there. -/
structure Added (s : PState) (x : NodeIndex) (t : PState) : Prop where
  stream : t.stream = s.stream
  errors : t.errors = s.errors
  appended : s.Appended t
  ordered : t.Ordered
  has : t.Has x

theorem alloc_added (hs : s.Ordered) {span : Span} {flags : ℕ}
    (hkids : ∀ j, some j ∈ kids → s.Has (some j)) :
    Yields (alloc kind span kids payload flags) (fun x t => Added s x t ∧
      t.interner = s.interner ∧ t.structLitAllowed = s.structLitAllowed ∧
        t.Node x kind kids payload) s := by
  obtain ⟨rs, hp, holder⟩ := hs
  have hrec : (rs ++ [(⟨kind, span, kids, payload, flags⟩ : NodeRecord)])[rs.length]? =
      some ⟨kind, span, kids, payload, flags⟩ := List.getElem?_concat_length
  refine ⟨_, _, alloc_records hp kind span kids payload flags,
    ⟨rfl, rfl, ⟨fun rs₀ hp₀ => ⟨[⟨kind, span, kids, payload, flags⟩], ?_⟩, fun _ _ h => h⟩,
      ⟨_, rfl, fun i r hr j hj => ?_⟩, span, spanOf?_of_record hrec⟩,
    rfl, rfl, node_of_record rfl hrec⟩
  · rw [poolOf_concat, ← hp, hp₀, ← poolOf_concat]
  · rcases Nat.lt_trichotomy i rs.length with hi | rfl | hi
    · rw [List.getElem?_append_left hi] at hr
      exact holder i r hr j hj
    · rw [hrec] at hr
      cases hr
      exact (hkids j hj).lt hp
    · rw [List.getElem?_eq_none (by simpa using hi)] at hr
      cases hr

/-- What building tuple indices around `lhs` leads to. -/
structure Indexed (s : PState) (lhs x : NodeIndex) (texts : List Bytes) (t : PState) : Prop extends
    Added s x t where
  chain : IndexChain t lhs x texts

theorem Indexed.trans (h : Indexed s lhs x texts t) (h' : Indexed t x y texts' u) :
    Indexed s lhs y (texts ++ texts') u where
  stream := h'.stream.trans h.stream
  errors := h'.errors.trans h.errors
  appended := h.appended.trans h'.appended
  ordered := h'.ordered
  has := h'.has
  chain := (h.chain.appended h.ordered h'.appended).trans h'.chain

/-- The cursor plays no part. -/
theorem IndexChain.at (h : IndexChain s lhs x texts) (i : ℕ) : IndexChain (s.at i) lhs x texts := by
  induction h with
  | base => exact .base
  | index _ hx hid ih => exact .index ih ⟨hx.data, hx.children, hx.given⟩ hid

theorem Indexed.at (h : Indexed s lhs x texts t) (i : ℕ) : Indexed (s.at i) lhs x texts (t.at i) where
  stream := by
    unfold PState.at
    rw [h.stream]
  errors := h.errors
  appended := ⟨h.appended.records, h.appended.names⟩
  ordered := h.ordered
  has := h.has
  chain := h.chain.at i

theorem allocTupleIndex_runs (hs : s.Ordered) (hlhs : s.Has lhs) (stop : ℕ) (text : Bytes) :
    Yields (allocTupleIndex lhs stop text) (fun x t => Indexed s lhs x [text] t) s := by
  obtain ⟨l, rfl⟩ := hlhs.index
  unfold allocTupleIndex
  refine spanOf_of_has hlhs fun span => ?_
  refine Yields.bind (R := fun id t => s.interner.intern text = (id, t.interner) ∧
    t = { s with interner := t.interner }) ⟨_, _, rfl, rfl, rfl⟩ ?_
  rintro id t ⟨hid, ht⟩
  have hpool : t.pool = s.pool := by rw [ht]
  have hget : t.interner.get? id = some text := by
    have hget := StringInterner.get?_intern s.interner text
    rwa [hid] at hget
  have hbase : s.Appended t := by
    refine ⟨fun rs hp => ⟨[], by rw [hpool, hp, List.append_nil]⟩, fun id' text' hid' => ?_⟩
    have hkeep := StringInterner.get?_intern_of_get? hid' text
    rwa [hid] at hkeep
  have hordered : t.Ordered := by
    obtain ⟨rs, hp, holder⟩ := hs
    exact ⟨rs, hpool.trans hp, holder⟩
  refine (alloc_added hordered ?_).mono ?_
  · intro j hj
    rw [List.mem_singleton.mp hj]
    obtain ⟨span, hspan⟩ := hlhs
    exact ⟨span, by rw [hpool, hspan]⟩
  · rintro x u ⟨hadded, hinterner, -, hnode⟩
    refine ⟨⟨?_, ?_, hbase.trans hadded.appended, hadded.ordered, hadded.has⟩, ?_⟩
    · rw [hadded.stream, ht]
    · rw [hadded.errors, ht]
    · rw [← List.nil_append [text]]
      exact .index .base hnode (by rw [hinterner, hget])

/-! ### The literal behind the dot -/

theorem advance_token (h : s.stream.peek 0 ≠ .eof) :
    Yields advance (fun tok t => tok = s.stream.peekToken 0 ∧ t = s.moved) s := by
  have hlt : s.stream.cursor < s.stream.tokens.length := lt_of_peek (s := s) h
  refine ⟨_, _, rfl, ?_⟩
  unfold TokenStream.peekToken
  rw [TokenStream.advance_of_token (List.getElem?_eq_getElem hlt), Nat.add_zero,
    List.getElem?_eq_getElem hlt]
  exact ⟨rfl, rfl⟩

theorem splitDot_eq_some {a b : Bytes} (h : splitDot text = some (a, b)) :
    text = a ++ ch '.' :: b ∧ b ≠ [] := by
  induction text generalizing a with
  | nil => cases h
  | cons c cs ih =>
    unfold splitDot at h
    split_ifs at h with hc hcs
    · cases h
      exact ⟨by rw [hc]; rfl, hcs⟩
    · obtain ⟨⟨a', b'⟩, hsplit, heq⟩ := Option.map_eq_some_iff.mp h
      cases heq
      obtain ⟨htext, hb⟩ := ih hsplit
      exact ⟨by rw [htext]; rfl, hb⟩

/-- The text of the literal behind the dot at the cursor. -/
def literalText (s : PState) : Bytes := s.stream.textOf (s.stream.peekToken 1).tokenSpan

theorem parseDot_integer (hs : s.Ordered) (hlhs : s.Has lhs) (hdot : s.stream.peek 0 = .dot)
    (hk : s.stream.peek 1 = .integer_literal) :
    Yields (parseDot lhs) (fun x t => Indexed s.moved.moved lhs x [literalText s] t) s := by
  have hk' : s.moved.stream.peek 0 = .integer_literal := hk
  unfold parseDot
  refine (advance_of_peek (by rw [hdot]; decide)).bind ?_
  rintro _ _ rfl
  refine Yields.read rfl ?_
  rw [TokenStream.check, hk', if_pos (by decide)]
  refine (advance_token (by rw [hk']; decide)).bind ?_
  rintro _ _ ⟨rfl, rfl⟩
  refine Yields.read rfl ?_
  exact allocTupleIndex_runs (s := s.moved.moved) hs hlhs _ _

/-- The texts of the indices that a float literal is taken apart into. -/
def floatTexts (a b : Bytes) : List Bytes :=
  if dropSuffixF b ≠ [] ∧ allDigits (dropSuffixF b) = true then [a, dropSuffixF b] else [a]

theorem parseDot_float {a b : Bytes} (hs : s.Ordered) (hlhs : s.Has lhs)
    (hdot : s.stream.peek 0 = .dot) (hk : s.stream.peek 1 = .float_literal)
    (hsplit : splitDot (literalText s) = some (a, b)) :
    Yields (parseDot lhs) (fun x t => Indexed s.moved.moved lhs x (floatTexts a b) t) s := by
  have hk' : s.moved.stream.peek 0 = .float_literal := hk
  have hsplit' : splitDot (s.moved.stream.textOf (s.moved.stream.peekToken 0).tokenSpan) =
      some (a, b) := hsplit
  unfold parseDot
  refine (advance_of_peek (by rw [hdot]; decide)).bind ?_
  rintro _ _ rfl
  refine Yields.read rfl ?_
  rw [TokenStream.check, hk', if_neg (by decide)]
  refine Yields.read (s := s.moved) (a := some ((s.moved.stream.peekToken 0), a, dropSuffixF b)) ?_ ?_
  · unfold floatIndex
    show (if s.moved.stream.check .float_literal = true then _ else _ : ParserM _) s.moved = _
    rw [TokenStream.check, hk', if_pos (by decide)]
    show Except.ok ((splitDot (s.moved.stream.textOf _)).map _, s.moved) = _
    rw [hsplit']
    rfl
  · show Yields (parseFloatIndex _ _ _ _) _ _
    unfold parseFloatIndex
    refine (advance_of_peek (by rw [hk']; decide)).bind ?_
    rintro _ _ rfl
    refine (allocTupleIndex_runs (s := s.moved.moved) hs hlhs _ a).bind ?_
    intro x t hx
    unfold floatTexts
    split_ifs
    · exact (allocTupleIndex_runs hx.ordered hx.has _ _).mono fun y u hy => hx.trans hy
    · exact Yields.pure hx

theorem parseDot_reports (hlhs : s.Has lhs) (hdot : s.stream.peek 0 = .dot)
    (hk : s.stream.peek 1 = .float_literal) (hsplit : splitDot (literalText s) = none) :
    Yields (parseDot lhs) (fun _ t => s.errors.length < t.errors.length) s := by
  have hk' : s.moved.stream.peek 0 = .float_literal := hk
  have hsplit' : splitDot (s.moved.stream.textOf (s.moved.stream.peekToken 0).tokenSpan) = none :=
    hsplit
  unfold parseDot
  refine (advance_of_peek (by rw [hdot]; decide)).bind ?_
  rintro _ _ rfl
  refine Yields.read rfl ?_
  rw [TokenStream.check, hk', if_neg (by decide)]
  refine Yields.read (s := s.moved) (a := none) ?_ ?_
  · unfold floatIndex
    show (if s.moved.stream.check .float_literal = true then _ else _ : ParserM _) s.moved = _
    rw [TokenStream.check, hk', if_pos (by decide)]
    show Except.ok ((splitDot (s.moved.stream.textOf _)).map _, s.moved) = _
    rw [hsplit']
    rfl
  · show Yields (parseField lhs) _ _
    unfold parseField
    refine Yields.bind (R := fun _ t => s.errors.length < t.errors.length ∧ t.pool = s.pool) ?_ ?_
    · have hne : s.moved.stream.peek 0 ≠ .identifier := by rw [hk']; decide
      unfold expectAndIntern expect
      refine Yields.bind (R := fun _ t => s.errors.length < t.errors.length ∧ t.pool = s.pool) ?_
        fun _ _ h => ⟨_, _, rfl, h⟩
      refine (consume_miss hne).bind ?_
      rintro _ _ ⟨rfl, rfl⟩
      exact ⟨_, _, rfl, by simp [PState.moved], rfl⟩
    · rintro field t ⟨herr, hpool⟩
      have hhas : t.Has lhs := by
        obtain ⟨span, hspan⟩ := hlhs
        exact ⟨span, by rw [hpool, hspan]⟩
      exact spanOf_of_has hhas fun _ => ⟨_, _, rfl, herr⟩

/-! ### What the chain spells -/

def joinDots (texts : List Bytes) : Bytes := [ch '.'].intercalate texts

/-- There is a diagnostic, or tuple indices are built around `lhs` whose texts, joined by dots, are
the text of the literal. -/
def SpellsLiteral (s : PState) (lhs : NodeIndex) (x : NodeIndex) (t : PState) : Prop :=
  s.errors.length < t.errors.length ∨
    ∃ texts, texts ≠ [] ∧ IndexChain t lhs x texts ∧ joinDots texts = literalText s

/-- An integer, or no byte behind a dot, or nothing but digits there. -/
def IsIndexLiteral (s : PState) : Prop :=
  s.stream.peek 1 = .integer_literal ∨
    ∀ a b, splitDot (literalText s) = some (a, b) → allDigits b = true

theorem dropSuffixF_of_digits {b : Bytes} (h : allDigits b = true) : dropSuffixF b = b := by
  unfold dropSuffixF
  rw [if_neg]
  intro hf
  obtain ⟨v, rfl⟩ := List.getLast?_eq_some_iff.mp hf
  have hlast := List.all_eq_true.mp h (ch 'f') (by simp)
  exact absurd hlast (by decide)

theorem joinDots_floatTexts {a b : Bytes} (hb : b ≠ []) :
    joinDots (floatTexts a b) = a ++ ch '.' :: b ↔ allDigits b = true := by
  unfold floatTexts
  split_ifs with hfrac
  · have hjoin : joinDots [a, dropSuffixF b] = a ++ ch '.' :: dropSuffixF b := by
      simp [joinDots, List.intercalate]
    rw [hjoin]
    constructor
    · intro heq
      have hb' : dropSuffixF b = b := by simpa using heq
      rw [← hb']
      exact hfrac.2
    · intro hdigits
      rw [dropSuffixF_of_digits hdigits]
  · have hjoin : joinDots [a] = a := by simp [joinDots, List.intercalate]
    rw [hjoin]
    constructor
    · intro heq
      have hlen := congrArg List.length heq
      simp at hlen
    · intro hdigits
      rw [dropSuffixF_of_digits hdigits] at hfrac
      exact (hfrac ⟨hb, hdigits⟩).elim

theorem Indexed.spells_iff (h : Indexed u lhs x texts t) (hlhs : s.Has lhs)
    (herr : u.errors = s.errors) (hne : texts ≠ []) :
    SpellsLiteral s lhs x t ↔ joinDots texts = literalText s := by
  obtain ⟨l, rfl⟩ := hlhs.index
  constructor
  · rintro (hlt | ⟨texts', -, hchain, hjoin⟩)
    · rw [h.errors, herr] at hlt
      exact (lt_irrefl _ hlt).elim
    · rw [h.chain.unique hchain h.ordered]
      exact hjoin
  · exact fun hjoin => Or.inr ⟨texts, hne, h.chain, hjoin⟩

theorem parseDot_spells_iff (hs : s.Ordered) (hlhs : s.Has lhs) (hdot : s.stream.peek 0 = .dot)
    (hk : s.stream.peek 1 = .integer_literal ∨ s.stream.peek 1 = .float_literal) :
    Yields (parseDot lhs) (fun x t => SpellsLiteral s lhs x t ↔ IsIndexLiteral s) s := by
  by_cases hint : s.stream.peek 1 = .integer_literal
  · refine (parseDot_integer hs hlhs hdot hint).mono fun x t h => ?_
    rw [h.spells_iff hlhs rfl (by simp)]
    exact ⟨fun _ => Or.inl hint, fun _ => by simp [joinDots, List.intercalate]⟩
  have hfloat := hk.resolve_left hint
  cases hsplit : splitDot (literalText s) with
  | none =>
    refine (parseDot_reports hlhs hdot hfloat hsplit).mono fun x t h => ?_
    exact ⟨fun _ => Or.inr (by simp [hsplit]), fun _ => Or.inl h⟩
  | some r =>
    obtain ⟨a, b⟩ := r
    obtain ⟨htext, hb⟩ := splitDot_eq_some hsplit
    refine (parseDot_float hs hlhs hdot hfloat hsplit).mono fun x t h => ?_
    have hne : floatTexts a b ≠ [] := by
      unfold floatTexts
      split_ifs <;> simp
    rw [h.spells_iff hlhs rfl hne, htext, joinDots_floatTexts hb]
    constructor
    · refine fun hdigits => Or.inr fun a' b' hab => ?_
      rw [hsplit] at hab
      cases hab
      exact hdigits
    · rintro (hk | hdigits)
      · exact (hint hk).elim
      · exact hdigits a b hsplit

/-! ### Chains in the source -/

open Lexer

/-- Behind the cursor stand the tokens of `dotted ds` up to the end of the file, and their texts in
the source. -/
structure AtChain (s : PState) (p : ℕ) (ds : List Bytes) : Prop where
  tokens : ∃ stop, s.stream.tokens.drop s.stream.cursor = indexTokens p ds ++ [⟨.eof, stop⟩]
  source : s.stream.source.drop p = dotted ds

theorem splitDot_index {d e : Bytes} (hd : IsIndex d) (he : e ≠ []) :
    splitDot (d ++ ch '.' :: e) = some (d, e) := by
  have hall := hd.2
  clear hd
  induction d with
  | nil => simp [splitDot, he]
  | cons c cs ih =>
    rw [List.all_cons, Bool.and_eq_true] at hall
    have hc : c ≠ ch '.' := by
      rintro rfl
      exact absurd hall.1 (by decide)
    rw [List.cons_append, splitDot, if_neg hc, ih hall.2]
    rfl

theorem floatTexts_index {d e : Bytes} (he : IsIndex e) : floatTexts d e = [d, e] := by
  have hdigits : allDigits e = true := he.2
  unfold floatTexts
  rw [dropSuffixF_of_digits hdigits, if_pos ⟨he.1, hdigits⟩]

theorem postfixTurn_dot {Q : NodeIndex → PState → Prop} (hdot : s.stream.peek 0 = .dot)
    (h : Yields (parseDot lhs) Q s) :
    Yields (postfixTurn n rec lhs) (fun r t => ∃ x, r = .again x ∧ Q x t) s := by
  unfold postfixTurn
  refine Yields.read rfl ?_
  rw [hdot]
  refine h.bind fun x t hx => ?_
  exact Yields.pure ⟨x, rfl, hx⟩

theorem peekToken_drop {k : ℕ} {tok : Token} (h : (s.stream.tokens.drop s.stream.cursor)[k]? = some tok) :
    s.stream.peekToken k = tok ∧ s.stream.peek k = tok.tokenKind := by
  rw [List.getElem?_drop] at h
  unfold TokenStream.peekToken TokenStream.peek
  rw [h]
  exact ⟨rfl, rfl⟩

theorem Indexed.refl (hs : s.Ordered) (hlhs : s.Has lhs) : Indexed s lhs lhs [] s :=
  ⟨⟨rfl, rfl, .refl s, hs, hlhs⟩, .base⟩

/-- The state behind the first index, or behind the first two. -/
theorem AtChain.next {p q : ℕ} {u : Bytes} {a b : Token} {ds ds' : List Bytes} (h : AtChain s p ds)
    (htokens : indexTokens p ds = a :: b :: indexTokens q ds') (hsource : dotted ds = u ++ dotted ds')
    (hq : q = p + u.length) (ht : t.stream = s.moved.moved.stream) : AtChain t q ds' := by
  obtain ⟨⟨stop, hdrop⟩, hrest⟩ := h
  constructor
  · refine ⟨stop, ?_⟩
    rw [ht]
    show s.stream.tokens.drop (s.stream.cursor + 1 + 1) = _
    rw [Nat.add_assoc, ← List.drop_drop, hdrop, htokens]
    rfl
  · rw [ht]
    show s.stream.source.drop q = _
    rw [hq, ← List.drop_drop, hrest, hsource, List.drop_left]

theorem Span.length_add {p : ℕ} {u : Bytes} (h : u.length < 2 ^ 32) :
    Span.length ⟨p, p + u.length⟩ = u.length := by
  unfold Span.length
  rw [show p + u.length + 2 ^ 32 - p = u.length + 2 ^ 32 by omega, Nat.add_mod_right,
    Nat.mod_eq_of_lt h]

theorem AtChain.literal {p : ℕ} {u v : Bytes} {a b : Token} {ds : List Bytes} {rest : List Token}
    (h : AtChain s p ds) (hsize : s.stream.source.length < 2 ^ 32) (htokens : indexTokens p ds = a :: b :: rest)
    (hb : b.tokenSpan = ⟨p + 1, p + 1 + u.length⟩) (hsource : dotted ds = ch '.' :: (u ++ v)) :
    literalText s = u ∧ s.stream.peek 0 = a.tokenKind ∧ s.stream.peek 1 = b.tokenKind := by
  obtain ⟨⟨stop, hdrop⟩, hrest⟩ := h
  rw [htokens] at hdrop
  have ha := (peekToken_drop (s := s) (k := 0) (by rw [hdrop]; rfl)).2
  have hb' : s.stream.peekToken 1 = b ∧ s.stream.peek 1 = b.tokenKind :=
    peekToken_drop (by rw [hdrop]; rfl)
  have hu : u.length < 2 ^ 32 := by
    have hlen := congrArg List.length (hrest.trans hsource)
    simp only [List.length_drop, List.length_cons, List.length_append] at hlen
    omega
  refine ⟨?_, ha, hb'.2⟩
  unfold literalText TokenStream.textOf Eter.textOf substr
  rw [hb'.1, hb, Span.length_add hu, ← List.drop_drop, hrest, hsource]
  simp

/-- A turn at a dot, and the turns behind it. -/
theorem postfix_again (texts : List Bytes) {ds : List Bytes} {N : ℕ} (hdot : s.stream.peek 0 = .dot)
    (h : Yields (parseDot lhs) (fun x t => Indexed s.moved.moved lhs x texts t ∧
      Yields (iterate (postfixTurn n rec) N x) (fun y u => ∃ i, Indexed (t.at i) x y ds u ∧
        u.stream.peek 0 = .eof) t) s) :
    Yields (iterate (postfixTurn n rec) (N + 1) lhs) (fun y u => ∃ i,
      Indexed (s.at i) lhs y (texts ++ ds) u ∧ u.stream.peek 0 = .eof) s := by
  unfold iterate Stateful.iterate
  refine (postfixTurn_dot hdot h).bind ?_
  rintro _ t ⟨x, rfl, hx, hrest⟩
  refine Yields.mono hrest ?_
  rintro y u ⟨i, hy, heof⟩
  exact ⟨i, (hx.at i).trans hy, heof⟩

theorem postfix_chain {ds : List Bytes} {p N : ℕ} (hds : ∀ d ∈ ds, IsIndex d) (hs : s.Ordered)
    (hlhs : s.Has lhs) (h : AtChain s p ds) (hsize : s.stream.source.length < 2 ^ 32) (hN : ds.length + 1 ≤ N) :
    Yields (iterate (postfixTurn n rec) N lhs) (fun x t => ∃ i, Indexed (s.at i) lhs x ds t ∧
      t.stream.peek 0 = .eof) s := by
  have hstop : ∀ {s lhs N p}, s.Ordered → s.Has lhs → AtChain s p [] → 
      Yields (iterate (postfixTurn n rec) (N + 1) lhs) (fun x t => ∃ i, Indexed (s.at i) lhs x [] t ∧
        t.stream.peek 0 = .eof) s := by
    intro s lhs N p hs hlhs h
    obtain ⟨stop, hdrop⟩ := h.tokens
    have heof : s.stream.peek 0 = .eof := (peekToken_drop (k := 0) (by rw [hdrop]; rfl)).2
    unfold iterate Stateful.iterate
    refine (postfixTurn_done (by rw [heof]; rfl)).bind ?_
    rintro _ _ ⟨rfl, rfl⟩
    exact Yields.pure ⟨_, Indexed.refl hs hlhs, heof⟩
  induction p, ds using indexTokens.induct generalizing s lhs N with
  | case1 p =>
    obtain ⟨N, rfl⟩ := Nat.exists_eq_add_of_le' hN
    exact hstop hs hlhs h
  | case2 p d =>
    obtain ⟨N, rfl⟩ := Nat.exists_eq_add_of_le' hN
    have hsource : dotted [d] = (ch '.' :: d) ++ dotted [] := rfl
    obtain ⟨htext, hdot, hk⟩ := h.literal hsize (u := d) (v := []) rfl rfl rfl
    refine postfix_again [d] hdot ?_
    refine (parseDot_integer hs hlhs hdot hk).mono fun x t hx => ?_
    rw [htext] at hx
    exact ⟨hx, hstop hx.ordered hx.has (h.next (q := p + (d.length + 1)) rfl hsource rfl hx.stream)⟩
  | case3 p d e ds ih =>
    obtain ⟨N, rfl⟩ : ∃ N', N = N' + 1 := ⟨N - 1, by omega⟩
    have hd := hds d (by simp)
    have he := hds e (by simp)
    have hlen : (d ++ ch '.' :: e).length = d.length + 1 + e.length := by
      simp only [List.length_append, List.length_cons]
      omega
    have hsource : dotted (d :: e :: ds) = ch '.' :: (d ++ ch '.' :: e) ++ dotted ds := by
      rw [dotted_cons, dotted_cons, List.cons_append, List.append_assoc, List.cons_append]
    obtain ⟨htext, hdot, hk⟩ := h.literal hsize (u := d ++ ch '.' :: e) (v := dotted ds) rfl
      (by rw [hlen]) hsource
    have hsplit : splitDot (literalText s) = some (d, e) := by
      rw [htext]
      exact splitDot_index hd he.1
    refine postfix_again [d, e] hdot ?_
    refine (parseDot_float hs hlhs hdot hk hsplit).mono fun x t hx => ?_
    rw [floatTexts_index he] at hx
    refine ⟨hx, ih (fun d' hd' => hds d' (by simp [hd'])) hx.ordered hx.has
      (h.next rfl hsource ?_ hx.stream) ?_ ?_⟩
    · rw [List.length_cons, hlen]
      omega
    · rw [hx.stream]
      exact hsize
    · simp only [List.length_cons] at hN
      omega

/-- The state before the whole source `t.i1…ik` is parsed. -/
def indexState (ds : List Bytes) (interner : StringInterner) : PState :=
  initialState (.ofItems (lexAll (indexSource ds)) (indexSource ds)) interner

theorem indexTokens_not_comment (p : ℕ) (ds : List Bytes) :
    ∀ tok ∈ indexTokens p ds, tok.tokenKind ≠ .comment := by
  induction p, ds using indexTokens.induct with
  | case1 p => simp [indexTokens]
  | case2 p d => simp [indexTokens]
  | case3 p d e ds ih => simpa [indexTokens] using ih

theorem indexState_stream {ds : List Bytes} (hds : ∀ d ∈ ds, IsIndex d) (interner : StringInterner) :
    ∃ stop, (indexState ds interner).stream =
      .fresh (⟨.identifier, ⟨0, 1⟩⟩ :: indexTokens 1 ds ++ [⟨.eof, stop⟩]) [] (indexSource ds) := by
  refine ⟨⟨(indexSource ds).length, (indexSource ds).length⟩, ?_⟩
  have hitems : lexAll (indexSource ds) =
      (⟨.identifier, ⟨0, 1⟩⟩ :: indexTokens 1 ds ++
        [⟨.eof, ⟨(indexSource ds).length, (indexSource ds).length⟩⟩] : List Token).map .token ++
          [] := by
    rw [lexAll_indexSource hds]
    simp
  show TokenStream.fresh (TokenStream.tokensOf _) (TokenStream.errorsOf _) _ = _
  rw [hitems, tokensOf_tokens, errorsOf_tokens, List.filter_eq_self.mpr]
  · simp [TokenStream.tokensOf, TokenStream.errorsOf]
  · intro tok hmem
    have hcomment := indexTokens_not_comment 1 ds tok
    simp only [List.mem_append, List.mem_cons, List.not_mem_nil, or_false] at hmem
    rcases hmem with (rfl | hmem) | rfl
    · rfl
    · simpa using hcomment hmem
    · rfl

/-- The base is the name `t`, and around it there is one index for each text. -/
def ParsesToChain (ds : List Bytes) (x : NodeIndex) (t : PState) : Prop :=
  t.errors = [] ∧ t.stream.peek 0 = .eof ∧ ∃ base id, t.Node base .IdentExpr [] id ∧
    t.interner.get? id = some (ascii "t") ∧ IndexChain t base x ds

/-- Behind the name, up to the end of the file. -/
theorem operators_chain {ds : List Bytes} {p : ℕ} (hds : ∀ d ∈ ds, IsIndex d) (hs : s.Ordered)
    (hlhs : s.Has lhs) (h : AtChain s p ds) (hsize : s.stream.source.length < 2 ^ 32)
    (hn : ds.length + 1 ≤ n) :
    Yields (iterate (infixTurn n rec 0) n lhs) (fun x t => ∃ i, Indexed (s.at i) lhs x ds t ∧
      t.stream.peek 0 = .eof) s := by
  obtain ⟨k, hk⟩ : ∃ k, n = k + 1 := ⟨n - 1, by omega⟩
  have hturn : Yields (infixTurn n rec 0 lhs) (fun r t => ∃ x, r = .done x ∧
      ∃ i, Indexed (s.at i) lhs x ds t ∧ t.stream.peek 0 = .eof) s := by
    unfold infixTurn
    refine (postfix_chain hds hs hlhs h hsize hn).bind ?_
    rintro x t ⟨i, hx, heof⟩
    refine Yields.read rfl ?_
    rw [heof, if_pos (by decide)]
    exact Yields.pure ⟨x, rfl, i, hx, heof⟩
  rw [show iterate (infixTurn n rec 0) n lhs = iterate (infixTurn n rec 0) (k + 1) lhs by rw [hk]]
  unfold iterate Stateful.iterate
  refine hturn.bind ?_
  rintro _ t ⟨x, rfl, hx⟩
  exact Yields.pure hx

theorem indexSource_parses {ds : List Bytes} (hds : ∀ d ∈ ds, IsIndex d)
    (hsize : (indexSource ds).length < 2 ^ 32) (interner : StringInterner) :
    ∃ d, ∀ n ≥ d, Yields (run n (.expr 0)) (ParsesToChain ds) (indexState ds interner) := by
  obtain ⟨stop, hstream⟩ := indexState_stream hds interner
  have hvalid : (indexState ds interner).Valid := .initial _ _ _ _
  have herrors : (indexState ds interner).errors = [] := rfl
  generalize indexState ds interner = s at hstream hvalid herrors ⊢
  have hnext : s.moved.stream.peek 0 = .dot ∨ s.moved.stream.peek 0 = .eof := by
    unfold PState.moved
    rw [hstream]
    rcases ds with _ | ⟨d, _ | ⟨e, ds⟩⟩
    · exact Or.inr rfl
    · exact Or.inl rfl
    · exact Or.inl rfl
  have htext : s.stream.textOf (s.stream.peekToken 0).tokenSpan = ascii "t" := by
    rw [hstream]
    have hname : ascii "t" = [ch 't'] := by decide +kernel
    have hlen : Span.length ⟨0, 1⟩ = 1 := by decide
    show Eter.textOf (indexSource ds) ⟨0, 1⟩ = _
    rw [Eter.textOf, hlen, hname]
    rfl
  refine ⟨ds.length + 2, fun n hn => ?_⟩
  obtain ⟨n, rfl⟩ : ∃ n', n = n' + 1 := ⟨n - 1, by omega⟩
  show Yields (parseExpr n (run n) 0) _ _
  unfold parseExpr
  have hname : Yields (parsePrefixExpr n (run n)) (fun x t => ∃ id, t.stream = s.moved.stream ∧
      t.errors = [] ∧ t.Ordered ∧ t.Has x ∧ t.Node x .IdentExpr [] id ∧
      t.interner.get? id = some (ascii "t")) s := by
    refine parsePrefixExpr_name (by rw [hstream]; rfl) ?_ ?_ (by omega) fun id interner hid => ?_
    · rcases hnext with h | h <;> rw [h] <;> decide
    · rcases hnext with h | h <;> rw [h] <;> decide
    · rw [htext] at hid
      have hget := StringInterner.get?_intern s.interner (ascii "t")
      rw [hid] at hget
      have hordered : ({ s.moved with interner := interner } : PState).Ordered := hvalid.ordered
      refine (alloc_added hordered fun j (hj : some j ∈ []) => nomatch hj).mono ?_
      rintro x t ⟨hadded, hinterner, -, hnode⟩
      exact ⟨id, hadded.stream, hadded.errors.trans herrors, hadded.ordered, hadded.has, hnode,
        by rw [hinterner]; exact hget⟩
  refine hname.bind ?_
  rintro lhs t ⟨id, htstream, hterr, htord, hthas, hnode, hid⟩
  have hchain : AtChain t 1 ds := by
    refine ⟨⟨stop, ?_⟩, ?_⟩
    · rw [htstream]
      show s.stream.tokens.drop (s.stream.cursor + 1) = _
      rw [hstream]
      rfl
    · rw [htstream]
      show s.stream.source.drop 1 = _
      rw [hstream]
      rfl
  have htsize : t.stream.source.length < 2 ^ 32 := by
    rw [htstream]
    show s.stream.source.length < _
    rw [hstream]
    exact hsize
  refine (operators_chain hds htord hthas hchain htsize (by omega)).mono ?_
  rintro x u ⟨i, hx, heof⟩
  refine ⟨hx.errors.trans hterr, heof, lhs, id, ?_, hx.appended.names _ _ hid, hx.chain⟩
  exact hnode.appended htord ⟨hx.appended.records, hx.appended.names⟩

theorem postfixTurn_spells_iff (n : ℕ) (rec : Rec) (hs : s.Valid) (hlhs : s.Has lhs)
    (hdot : s.stream.peek 0 = .dot)
    (hk : s.stream.peek 1 = .integer_literal ∨ s.stream.peek 1 = .float_literal) :
    Yields (postfixTurn n rec lhs) (fun r t => (∃ x, r = .again x ∧ SpellsLiteral s lhs x t) ↔
      IsIndexLiteral s) s := by
  refine (postfixTurn_dot hdot (parseDot_spells_iff hs.ordered hlhs hdot hk)).mono ?_
  rintro _ t ⟨x, rfl, hiff⟩
  rw [← hiff]
  constructor
  · rintro ⟨y, hy, hspells⟩
    cases hy
    exact hspells
  · exact fun h => ⟨x, rfl, h⟩

/-- One turn at a dot and a literal records a diagnostic or loses nothing of the literal exactly when
the literal is an index or has no part behind a dot; chains of indices in a source lose nothing. -/
theorem tuple_index_chains (s : PState) (n : ℕ) (rec : Rec) (lhs : NodeIndex) (ds : List Bytes)
    (interner : StringInterner) :
    (s.Valid → s.Has lhs → s.stream.peek 0 = .dot →
      s.stream.peek 1 = .integer_literal ∨ s.stream.peek 1 = .float_literal →
      Yields (postfixTurn n rec lhs) (fun r t => (∃ x, r = .again x ∧ SpellsLiteral s lhs x t) ↔
        IsIndexLiteral s) s) ∧
    ((∀ d ∈ ds, IsIndex d) → (indexSource ds).length < 2 ^ 32 →
      TokenStream.errorsOf (lexAll (indexSource ds)) = [] ∧
      ∃ d, ∀ n ≥ d, Yields (run n (.expr 0)) (ParsesToChain ds) (indexState ds interner)) := by
  constructor
  · exact fun hs hlhs hdot hk => postfixTurn_spells_iff n rec hs hlhs hdot hk
  · intro hds hsize
    obtain ⟨stop, hstream⟩ := indexState_stream hds interner
    exact ⟨congrArg TokenStream.lexErrors hstream, indexSource_parses hds hsize interner⟩

/-- The state behind the name in `t.` and a literal. -/
def afterName (kind : Token.Kind) (text : Bytes) : PState where
  stream := { TokenStream.fresh [byteToken .identifier 0, byteToken .dot 1,
    ⟨kind, ⟨2, 2 + text.length⟩⟩] [] (ascii "t." ++ text) with cursor := 1 }
  pool := poolOf [sentinel, ⟨.IdentExpr, ⟨0, 1⟩, [], 1, 0⟩]
  interner := (StringInterner.new.intern (ascii "t")).2
  errors := []
  structLitAllowed := true
  strays := 0
  slips := []

theorem afterName_valid (kind : Token.Kind) (text : Bytes) : (afterName kind text).Valid where
  inside := by
    show 1 ≤ 3
    decide
  tree := by
    refine ⟨_, [] ++ [(some 1, .expr)], rfl, ?_⟩
    exact @Grown.alloc [sentinel] [] [] [] Grown.new ⟨.IdentExpr, ⟨0, 1⟩, [], 1, 0⟩ .expr rfl .nil
      (by rintro ⟨⟩) (fun _ => ⟨by decide, by rintro ⟨⟩, by rintro ⟨⟩⟩) rfl

theorem afterName_has (kind : Token.Kind) (text : Bytes) : (afterName kind text).Has (some 1) :=
  ⟨⟨0, 1⟩, rfl⟩

/-- `t.0` behind its name, and `t.0.1.2`. -/
theorem tuple_index_chains_numbers :
    (∀ n rec, Yields (postfixTurn n rec (some 1)) (fun r t => (∃ x, r = .again x ∧
      SpellsLiteral (afterName .integer_literal (ascii "0")) (some 1) x t) ↔
        IsIndexLiteral (afterName .integer_literal (ascii "0")))
      (afterName .integer_literal (ascii "0"))) ∧
    ∃ d, ∀ n ≥ d, Yields (run n (.expr 0)) (ParsesToChain [ascii "0", ascii "1", ascii "2"])
      (indexState [ascii "0", ascii "1", ascii "2"] .new) :=
  ⟨fun n rec => (tuple_index_chains _ n rec _ [] .new).1 (afterName_valid _ _) (afterName_has _ _)
      rfl (Or.inl rfl),
    ((tuple_index_chains (afterName .integer_literal (ascii "0")) 0 (fun _ => throw .fuel) none
      [ascii "0", ascii "1", ascii "2"] .new).2 (by decide +kernel) (by decide +kernel)).2⟩

/-- Behind `t`, `.0.1_0` becomes the index `0` only. -/
theorem tuple_index_lost : ¬ ∀ s n rec lhs, s.Valid → s.Has lhs →
    s.stream.peek 0 = .dot →
    s.stream.peek 1 = .integer_literal ∨ s.stream.peek 1 = .float_literal →
    Yields (postfixTurn n rec lhs) (fun r t => ∃ x, r = .again x ∧ SpellsLiteral s lhs x t) s := by
  intro hclaim
  obtain ⟨s, hs⟩ : ∃ s, s = afterName .float_literal (ascii "0.1_0") := ⟨_, rfl⟩
  have hvalid : s.Valid := hs ▸ afterName_valid _ _
  have hhas : s.Has (some 1) := hs ▸ afterName_has _ _
  have hdot : s.stream.peek 0 = .dot := by rw [hs]; rfl
  have hfloat : s.stream.peek 1 = .float_literal := by rw [hs]; rfl
  have hsplit : splitDot (literalText s) = some (ascii "0", ascii "1_0") := by
    rw [hs]
    decide +kernel
  have hspells := hclaim s 0 (fun _ => throw .fuel) _ hvalid hhas hdot (Or.inr hfloat)
  have hiff := postfixTurn_spells_iff 0 (fun _ => throw .fuel) hvalid hhas hdot (Or.inr hfloat)
  obtain ⟨r, t, -, h, hiff⟩ := hspells.and hiff
  rcases hiff.mp h with hint | hdigits
  · rw [hfloat] at hint
    cases hint
  · exact absurd (hdigits _ _ hsplit) (by decide +kernel)

end Eter.Parser
