import Eter.Grammar
import Eter.SilentRuns

/-!
# Silent runs that hold nodes

A production goes from token to token and holds on to the names and nodes it has come by. Its steps
are rules: each says what is left to be shown of the rest of the production.
-/

namespace Eter.Parser
open Stateful NodePool Diag

variable {α β : Type} {st : TokenStream} {lit b : Bool} {s t u : PState} {n N e i j k : ℕ}
  {names : List (InternedStr × Bytes)} {x : NodeIndex} {xs : List NodeIndex} {tr : SyntaxTree}
  {ts ts' : List SyntaxTree} {word : Token.Kind} {Q : α → PState → Prop} {p : ℕ → ParserM NodeIndex}

/-! ### What the pool keeps -/

mutual

/-- The pool counts the children of a node in 16 bits. -/
def SyntaxTree.stored : SyntaxTree → SyntaxTree
  | .missing => .missing
  | .node kind flags name rest ts =>
    .node kind flags name rest ((storedAll ts).take (ts.length % 2 ^ 16))

def storedAll : List SyntaxTree → List SyntaxTree
  | [] => []
  | t :: ts => t.stored :: storedAll ts

end

theorem storedAll_eq_map (ts : List SyntaxTree) : storedAll ts = ts.map SyntaxTree.stored := by
  induction ts with
  | nil => rfl
  | cons t ts ih => rw [storedAll, ih, List.map_cons]

theorem storedAll_append (ts ts' : List SyntaxTree) :
    storedAll (ts ++ ts') = storedAll ts ++ storedAll ts' := by
  simp [storedAll_eq_map]

theorem storedAll_length (ts : List SyntaxTree) : (storedAll ts).length = ts.length := by
  simp [storedAll_eq_map]

/-- A node that stands for a node is there. -/
theorem PState.Denotes.has (h : s.Denotes x tr.stored) (hs : s.Ordered) (htr : tr.IsNode) :
    s.Has x := by
  obtain ⟨rs, hp, -⟩ := hs
  cases tr with
  | missing => exact htr.elim
  | node kind flags name rest ts =>
    rw [SyntaxTree.stored] at h
    cases h with
    | @node x d _ _ _ hd =>
      obtain _ | l := x
      · cases hd
      · rw [hp, poolOf_get?] at hd
        obtain ⟨r, hr, -⟩ := Option.map_eq_some_iff.mp hd
        exact ⟨_, by rw [hp, spanOf?_of_record hr]⟩

theorem PState.Denotes.has_some {l : ℕ} (h : s.Denotes (some l) tr) (hs : s.Ordered) :
    s.Has (some l) := by
  obtain ⟨rs, hp, -⟩ := hs
  cases h with
  | node hd =>
    rw [hp, poolOf_get?] at hd
    obtain ⟨r, hr, -⟩ := Option.map_eq_some_iff.mp hd
    exact ⟨_, by rw [hp, spanOf?_of_record hr]⟩

/-! ### States of a run -/

/-- The state stands before token `i` of the stream. -/
structure Before (st : TokenStream) (lit : Bool) (i : ℕ) (s : PState) : Prop where
  tokens : s.stream.tokens = st.tokens
  source : s.stream.source = st.source
  lit : s.structLitAllowed = lit
  cursor : s.stream.cursor = i
  ordered : s.Ordered

/-- A run from `s` has come to token `j` and holds names and nodes that stand for the trees. -/
structure Gathered (st : TokenStream) (allowed : Bool) (s : PState) (j : ℕ)
    (names : List (InternedStr × Bytes)) (xs : List NodeIndex) (ts : List SyntaxTree)
    (t : PState) : Prop extends s.Reaches j t where
  start : ∃ i, Before st allowed i s
  names : ∀ name ∈ names, t.interner.get? name.1 = some name.2
  nodes : List.Forall₂ t.Denotes xs (storedAll ts)

theorem Before.gathered (h : Before st lit i s) : Gathered st lit s i [] [] [] s :=
  ⟨h.cursor ▸ h.ordered.refl, ⟨i, h⟩, by simp, .nil⟩

theorem Gathered.before (h : Gathered st lit s j names xs ts t) : Before st lit j t := by
  obtain ⟨i, hs⟩ := h.start
  exact ⟨h.tokens.trans hs.tokens, h.source.trans hs.source, h.toShares.lit.trans hs.lit, h.cursor,
    h.ordered⟩

theorem Gathered.later (h : Gathered st lit s j names xs ts t) (hu : t.Reaches k u) :
    Gathered st lit s k names xs ts u :=
  ⟨h.toReaches.trans hu, h.start, fun name hname => hu.appended.names _ _ (h.names name hname),
    h.nodes.imp fun _ _ hx => hx.appended h.ordered hu.appended⟩

theorem Gathered.length (h : Gathered st lit s j names xs ts t) : xs.length = ts.length := by
  rw [h.nodes.length_eq, storedAll_length]

theorem Before.kind (h : Before st lit j t) : t.stream.peek 0 = st.kindAt j := by
  unfold TokenStream.kindAt TokenStream.peek
  rw [h.tokens, h.cursor]

theorem Gathered.kind (h : Gathered st lit s j names xs ts t) : t.stream.peek 0 = st.kindAt j :=
  h.before.kind

theorem Gathered.token (h : Gathered st lit s j names xs ts t) : t.stream.peekToken 0 = st.tokenAt j := by
  unfold TokenStream.tokenAt TokenStream.peekToken TokenStream.endToken
  rw [h.before.tokens, h.cursor]

theorem Gathered.textOf (h : Gathered st lit s j names xs ts t) (span : Span) :
    t.stream.textOf span = st.textOf span := by
  unfold TokenStream.textOf
  rw [h.before.source]

theorem Gathered.self (h : Gathered st lit s j names xs ts t) : t.Reaches j t :=
  h.cursor ▸ h.ordered.refl

theorem Gathered.moved (h : Gathered st lit s j names xs ts t) : Gathered st lit s (j + 1) names xs ts t.moved :=
  h.later h.self.moved

/-! ### Reading -/

theorem Gathered.peek {f : Token.Kind → ParserM α} (h : Gathered st lit s j names xs ts t)
    (hf : Yields (f (st.kindAt j)) Q t) : Yields (Parser.peek >>= f) Q t := by
  rw [← h.kind] at hf
  exact Yields.read rfl hf

theorem Gathered.peekToken {f : Token → ParserM α} (h : Gathered st lit s j names xs ts t)
    (hf : Yields (f (st.tokenAt j)) Q t) : Yields (Parser.peekToken >>= f) Q t := by
  rw [← h.token] at hf
  exact Yields.read rfl hf

theorem Gathered.text {f : Bytes → ParserM α} {span : Span} (h : Gathered st lit s j names xs ts t)
    (hf : Yields (f (st.textOf span)) Q t) : Yields (Parser.textOf span >>= f) Q t := by
  rw [← h.textOf] at hf
  exact Yields.read rfl hf

theorem Gathered.check {f : Bool → ParserM α} (h : Gathered st lit s j names xs ts t)
    (hf : Yields (f (decide (st.kindAt j = word))) Q t) : Yields (Parser.check word >>= f) Q t := by
  rw [← h.kind] at hf
  exact Yields.read rfl hf

theorem Gathered.check_hit {f : Bool → ParserM α} (h : Gathered st lit s j names xs ts t)
    (hk : st.kindAt j = word) (hf : Yields (f true) Q t) : Yields (Parser.check word >>= f) Q t :=
  h.check (by rwa [decide_eq_true hk])

theorem Gathered.check_miss {f : Bool → ParserM α} (h : Gathered st lit s j names xs ts t)
    (hk : st.kindAt j ≠ word) (hf : Yields (f false) Q t) : Yields (Parser.check word >>= f) Q t :=
  h.check (by rwa [decide_eq_false hk])

theorem Gathered.check_then {m m' : ParserM α} (h : Gathered st lit s j names xs ts t)
    (hk : st.kindAt j = word) (hm : Yields m Q t) :
    Yields (do if ← Parser.check word then m else m') Q t :=
  h.check_hit hk (by rwa [if_pos rfl])

theorem Gathered.check_else {m m' : ParserM α} (h : Gathered st lit s j names xs ts t)
    (hk : st.kindAt j ≠ word) (hm : Yields m' Q t) :
    Yields (do if ← Parser.check word then m else m') Q t :=
  h.check_miss hk (by rwa [if_neg Bool.false_ne_true])

/-- The branch for another token is not taken. -/
theorem Gathered.unless_check {m m' : ParserM α} (h : Gathered st lit s j names xs ts t)
    (hk : st.kindAt j = word) (hm : Yields m' Q t) :
    Yields (do if !(← Parser.check word) then m else m') Q t :=
  h.check_hit hk (by rwa [if_neg (by decide)])

theorem Gathered.atEof {f : Bool → ParserM α} (h : Gathered st lit s j names xs ts t)
    (hf : Yields (f (decide (st.kindAt j = .eof))) Q t) : Yields (Parser.atEof >>= f) Q t := by
  rw [← h.kind] at hf
  exact Yields.read rfl hf

theorem Gathered.previous {f : Token → ParserM α} (h : Gathered st lit s (j + 1) names xs ts t)
    (hk : st.kindAt j ≠ .eof) (hf : Yields (f (st.tokenAt j)) Q t) :
    Yields (Parser.previous >>= f) Q t := by
  have hlt := lt_of_kindAt_stream hk
  have hprev : t.stream.previous = st.tokenAt j := by
    unfold TokenStream.previous TokenStream.tokenAt TokenStream.peekToken
    rw [h.cursor, h.before.tokens]
    simp [List.getElem?_eq_getElem hlt]
  rw [← hprev] at hf
  exact Yields.read rfl hf

theorem Gathered.structLitAllowed {f : Bool → ParserM α} (h : Gathered st lit s j names xs ts t)
    (hf : Yields (f lit) Q t) : Yields (Parser.structLitAllowed >>= f) Q t := by
  rw [← h.before.lit] at hf
  exact Yields.read rfl hf

theorem Gathered.errorsSize {f : ℕ → ParserM α} (h : Gathered st lit s j names xs ts t)
    (hf : Yields (f s.errors.length) Q t) : Yields (Parser.errorsSize >>= f) Q t := by
  rw [← h.errors] at hf
  exact Yields.read rfl hf

theorem Gathered.denotes_of_mem (h : Gathered st lit s j names xs ts t) (hx : x ∈ xs)
    (hts : ∀ tr ∈ ts, tr.IsNode) : ∃ tr : SyntaxTree, tr.IsNode ∧ t.Denotes x tr.stored := by
  obtain ⟨i, hi, hxi⟩ := List.getElem_of_mem hx
  obtain ⟨y, hy, hden⟩ := forall₂_getElem? h.nodes (List.getElem?_eq_some_iff.mpr ⟨hi, hxi⟩)
  rw [storedAll_eq_map, List.getElem?_map] at hy
  obtain ⟨tr, htr, rfl⟩ := Option.map_eq_some_iff.mp hy
  exact ⟨tr, hts tr (List.mem_of_getElem? htr), hden⟩

theorem Gathered.spanOf {f : Span → ParserM α} (h : Gathered st lit s j names xs ts t) (hx : x ∈ xs)
    (hts : ∀ tr ∈ ts, tr.IsNode) (hf : ∀ span, Yields (f span) Q t) :
    Yields (Parser.spanOf x >>= f) Q t := by
  obtain ⟨tr, htr, hden⟩ := h.denotes_of_mem hx hts
  exact spanOf_of_has (hden.has h.ordered htr) hf

theorem Gathered.kindOf {f : NodeKind → ParserM α} (h : Gathered st lit s j names xs ts t)
    (hx : x ∈ xs) (hts : ∀ tr ∈ ts, tr.IsNode) (hf : ∀ kind ≠ .Error, Yields (f kind) Q t) :
    Yields (Parser.kindOf x >>= f) Q t := by
  obtain ⟨tr, htr, hden⟩ := h.denotes_of_mem hx hts
  cases tr with
  | missing => exact htr.elim
  | node kind flags name rest ts =>
    rw [SyntaxTree.stored] at hden
    cases hden with
    | node hd =>
      refine Yields.read ?_ (hf _ htr)
      unfold Parser.kindOf
      rw [hd]

/-! ### Going on -/

theorem Gathered.advance {f : Token → ParserM α} (h : Gathered st lit s j names xs ts t)
    (hk : st.kindAt j = word) (hne : word ≠ .eof)
    (hf : ∀ u, Gathered st lit s (j + 1) names xs ts u → Yields (f (st.tokenAt j)) Q u) :
    Yields (Parser.advance >>= f) Q t := by
  refine (advance_token (by rw [h.kind, hk]; exact hne)).bind ?_
  rintro _ _ ⟨rfl, rfl⟩
  rw [h.token]
  exact hf _ h.moved

theorem Gathered.expect {d : DiagID} {context : String} {f : Token → ParserM α}
    (h : Gathered st lit s j names xs ts t) (hk : st.kindAt j = word) (hne : word ≠ .eof)
    (hf : ∀ u, Gathered st lit s (j + 1) names xs ts u → Yields (f (st.tokenAt j)) Q u) :
    Yields (Parser.expect word d context >>= f) Q t := by
  refine (expect_hit (by rw [h.kind, hk]) hne).bind ?_
  rintro _ _ ⟨rfl, rfl⟩
  rw [h.token]
  exact hf _ h.moved

theorem Gathered.consume_hit {f : Bool → ParserM α} (h : Gathered st lit s j names xs ts t)
    (hk : st.kindAt j = word) (hne : word ≠ .eof)
    (hf : ∀ u, Gathered st lit s (j + 1) names xs ts u → Yields (f true) Q u) :
    Yields (Parser.consume word >>= f) Q t := by
  refine (Parser.consume_hit (by rw [h.kind, hk]) hne).bind ?_
  rintro _ _ ⟨rfl, rfl⟩
  exact hf _ h.moved

theorem Gathered.consume_miss {f : Bool → ParserM α} (h : Gathered st lit s j names xs ts t)
    (hk : st.kindAt j ≠ word) (hf : Yields (f false) Q t) :
    Yields (Parser.consume word >>= f) Q t := by
  refine (Parser.consume_miss (by rw [h.kind]; exact hk)).bind ?_
  rintro _ _ ⟨rfl, rfl⟩
  exact hf

theorem Gathered.consume_then {m m' : ParserM α} (h : Gathered st lit s j names xs ts t)
    (hk : st.kindAt j = word) (hne : word ≠ .eof)
    (hm : ∀ u, Gathered st lit s (j + 1) names xs ts u → Yields m Q u) :
    Yields (do if ← Parser.consume word then m else m') Q t :=
  h.consume_hit hk hne fun u hu => by
    rw [if_pos rfl]
    exact hm u hu

theorem Gathered.consume_else {m m' : ParserM α} (h : Gathered st lit s j names xs ts t)
    (hk : st.kindAt j ≠ word) (hm : Yields m' Q t) :
    Yields (do if ← Parser.consume word then m else m') Q t :=
  h.consume_miss hk (by rwa [if_neg Bool.false_ne_true])

theorem Gathered.intern {f : InternedStr → ParserM α} (h : Gathered st lit s j names xs ts t) (text : Bytes)
    (hf : ∀ id u, Gathered st lit s j (names ++ [(id, text)]) xs ts u → Yields (f id) Q u) :
    Yields (Parser.intern text >>= f) Q t := by
  refine (h.toReaches.intern text).bind ?_
  rintro id u ⟨-, hu, hid⟩
  rw [h.cursor] at hu
  have hlater := h.later hu
  refine hf id u { hlater with names := fun name hname => ?_ }
  rcases List.mem_append.mp hname with hname | hname
  · exact hlater.names name hname
  · rw [List.mem_singleton.mp hname]
    exact hid

theorem Gathered.internText {f : InternedStr → ParserM α} (h : Gathered st lit s j names xs ts t) (span : Span)
    (hf : ∀ id u, Gathered st lit s j (names ++ [(id, st.textOf span)]) xs ts u → Yields (f id) Q u) :
    Yields (Parser.internText span >>= f) Q t := by
  unfold Parser.internText
  rw [bind_assoc]
  refine Yields.read rfl ?_
  show Yields (Parser.intern (t.stream.textOf span) >>= f) Q t
  rw [h.textOf]
  exact h.intern _ hf

theorem Gathered.expectName {construct : String} {f : InternedStr → ParserM α}
    (h : Gathered st lit s j names xs ts t) (hk : st.kindAt j = .identifier)
    (hf : ∀ id u, Gathered st lit s (j + 1) (names ++ [(id, st.textAt j)]) xs ts u → Yields (f id) Q u) :
    Yields (Parser.expectName .identifier construct >>= f) Q t := by
  unfold Parser.expectName
  rw [bind_assoc]
  refine h.consume_hit hk (by decide) fun u hu => ?_
  rw [if_pos rfl, bind_assoc]
  exact hu.previous (by rw [hk]; decide) (hu.internText _ hf)

/-! ### Nodes -/

theorem Gathered.has (h : Gathered st lit s j names xs ts t) : ∀ l, some l ∈ xs → t.Has (some l) := by
  intro l hl
  obtain ⟨k, hk, hkl⟩ := List.getElem_of_mem hl
  obtain ⟨tr, -, hx⟩ := forall₂_getElem? h.nodes (List.getElem?_eq_some_iff.mpr ⟨hk, hkl⟩)
  exact hx.has_some h.ordered

theorem Gathered.alloc (h : Gathered st lit s j names xs ts t) {kind : NodeKind} {span : Span}
    {payload flags rest : ℕ} {name : Option Bytes}
    (hc : Carries t.interner (encodingOf kind) payload name rest) :
    Yields (alloc kind span xs payload flags)
      (s.Parsed j (SyntaxTree.node kind flags name rest ts).stored) t := by
  obtain ⟨rs, hp, -⟩ := id h.ordered
  obtain ⟨x, u, hrun, hadded, hnames, hlit, hnode⟩ := @alloc_added t kind xs payload h.ordered span
    flags h.has
  have hreach : t.Reaches t.stream.cursor u :=
    ⟨⟨by rw [hadded.stream], by rw [hadded.stream], hlit⟩, by rw [hadded.stream], hadded.errors,
      hadded.appended, hadded.ordered⟩
  rw [h.cursor] at hreach
  refine ⟨x, u, hrun, h.toReaches.trans hreach, hadded.has, ?_⟩
  have hget : ∃ data, u.pool.get? x = some data ∧ data.kind = kind ∧ data.flags = flags ∧
      data.payload = payload := by
    rw [alloc_records hp] at hrun
    cases hrun
    exact ⟨_, get?_of_record List.getElem?_concat_length, rfl, rfl, rfl⟩
  obtain ⟨data, hdata, rfl, rfl, rfl⟩ := hget
  rw [SyntaxTree.stored]
  refine .of_kids hdata (by rw [hnames]; exact hc) ?_
  rw [hnode.children, h.length]
  exact List.forall₂_take _ ((h.later hreach).nodes)

theorem Gathered.leaf (h : Gathered st lit s j names [] [] t) {kind : NodeKind} {span : Span}
    {payload rest : ℕ} {name : Option Bytes}
    (hc : Carries t.interner (encodingOf kind) payload name rest) :
    Yields (allocLeaf kind span payload)
      (s.Parsed j (SyntaxTree.node kind 0 name rest []).stored) t :=
  h.alloc hc

/-- The list has the item as its last one. -/
class EndsIn {β : Type} (items : List β) (item : outParam β) : Prop where
  mem : item ∈ items

instance {β : Type} (item : β) : EndsIn [item] item := ⟨List.mem_singleton_self _⟩

instance {β : Type} (items : List β) (item : β) : EndsIn (items ++ [item]) item :=
  ⟨List.mem_append_right _ (List.mem_singleton_self _)⟩

theorem Gathered.named {id : InternedStr} {text : Bytes} [hlast : EndsIn names (id, text)]
    (h : Gathered st lit s j names xs ts t) : t.interner.get? id = some text :=
  h.names (id, text) hlast.mem

/-- The only node is the result. -/
theorem Gathered.result (h : Gathered st lit s j names [x] [tr] t) (htr : tr.IsNode) :
    s.Parsed j tr.stored x t := by
  obtain ⟨hden, -⟩ := List.forall₂_cons.mp h.nodes
  exact ⟨h.toReaches, hden.has h.ordered htr, hden⟩

/-- What another production has built is gathered, too. -/
theorem Gathered.concat (h : Gathered st lit s j names xs ts t) (hx : t.Parsed k tr.stored x u) :
    Gathered st lit s k names (xs ++ [x]) (ts ++ [tr]) u := by
  have hlater := h.later hx.toReaches
  refine { hlater with nodes := ?_ }
  rw [storedAll_append]
  exact List.rel_append hlater.nodes (.cons hx.denotes .nil)

/-- A child that is not there. -/
theorem Gathered.concat_missing (h : Gathered st lit s j names xs ts t) :
    Gathered st lit s j names (xs ++ [NullNode]) (ts ++ [.missing]) t := by
  refine { h with nodes := ?_ }
  rw [storedAll_append]
  exact List.rel_append h.nodes (.cons .missing .nil)

/-- A leaf among the children. -/
theorem Gathered.leafThen (h : Gathered st lit s j names xs ts t) {kind : NodeKind} {span : Span}
    {payload rest : ℕ} {name : Option Bytes} {f : NodeIndex → ParserM α}
    (hc : Carries t.interner (encodingOf kind) payload name rest)
    (hf : ∀ x u, Gathered st lit s j names (xs ++ [x]) (ts ++ [.node kind 0 name rest []]) u →
      Yields (f x) Q u) : Yields (allocLeaf kind span payload >>= f) Q t :=
  (h.before.gathered.leaf hc).bind fun x u hx => hf x u (h.concat hx)

/-! ### Other productions -/

/-- With enough fuel the production reads tokens `i` to `j` as the tree. -/
def Runs (st : TokenStream) (lit : Bool) (p : ℕ → ParserM NodeIndex) (e i j : ℕ)
    (tr : SyntaxTree) : Prop :=
  ∀ n ≥ 4 * (j - i) + e, ∀ s, Before st lit i s → Yields (p n) (s.Parsed j tr.stored) s

/-- Tokens `i` to `j` are an element that the production reads. -/
structure Element (st : TokenStream) (lit : Bool) (p : ℕ → ParserM NodeIndex) (e i j : ℕ)
    (tr : SyntaxTree) : Prop where
  lt : i < j
  starts : closesElement (st.kindAt i) = false
  node : tr.IsNode
  runs : Runs st lit p e i j tr

theorem Gathered.call {f : NodeIndex → ParserM α} {m : ParserM NodeIndex}
    (h : Gathered st lit s j names xs ts t) (hr : Element st lit p e j k tr) (hm : p n = m)
    (hn : 4 * (k - j) + e ≤ n)
    (hf : ∀ x u, Gathered st lit s k names (xs ++ [x]) (ts ++ [tr]) u → Yields (f x) Q u) :
    Yields (m >>= f) Q t := by
  subst hm
  exact (hr.runs n hn t h.before).bind fun x u hx => hf x u (h.concat hx)

/-! ### The flag -/

theorem Before.allow (h : Before st lit i s) (b : Bool) : Before st b i (s.allow b) :=
  ⟨h.tokens, h.source, rfl, h.cursor, h.ordered⟩

/-- With the other flag only what is built is new. -/
theorem Gathered.within {β : Type} {m : ParserM β} {f : β → ParserM α} {g : β → List NodeIndex}
    (h : Gathered st lit s j names xs ts t)
    (hm : ∀ t', Before st b j t' → Yields m (fun r u => Gathered st b t' k [] (g r) ts' u) t')
    (hf : ∀ r u, Gathered st lit s k names (xs ++ g r) (ts ++ ts') u → Yields (f r) Q u) :
    Yields (withStructLit b m >>= f) Q t := by
  refine Yields.bind (R := fun r u => Gathered st lit s k names (xs ++ g r) (ts ++ ts') u) ?_ hf
  refine Yields.withStructLit ((hm _ (h.before.allow b)).mono fun r u hu => ?_)
  have hlater := h.later hu.toReaches.allow
  refine { hlater with nodes := ?_ }
  rw [storedAll_append]
  refine List.rel_append hlater.nodes (hu.nodes.imp fun _ _ hx => ?_)
  exact hx.later (t := u.allow t.structLitAllowed) (fun _ _ hd => ⟨hd, rfl⟩) fun _ _ hid => hid

/-- The production ends with the other flag. -/
theorem Gathered.inside {m : ParserM NodeIndex} (h : Gathered st lit s j names xs ts t)
    (hm : ∀ s' t', Gathered st b s' j names xs ts t' → Yields m (s'.Parsed k tr) t') :
    Yields (withStructLit b m) (s.Parsed k tr) t := by
  obtain ⟨i, hs⟩ := h.start
  have hlit : t.structLitAllowed = s.structLitAllowed := h.toShares.lit
  refine Yields.withStructLit ((hm (s.allow b) (t.allow b) ⟨h.toReaches.lift b, ⟨i, hs.allow b⟩,
    h.names, h.nodes.imp fun _ _ hx => ?_⟩).mono fun _ _ hx => ?_)
  · exact hx.later (t := t.allow b) (fun _ _ hd => ⟨hd, rfl⟩) fun _ _ hid => hid
  · rw [hlit]
    exact PState.Parsed.allow hx

end Eter.Parser
