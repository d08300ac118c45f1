import Eter.DeclarationWalks
import Eter.Grammar
import Eter.Payloads

/-!
# The words that nodes stand for

Which text, and which regime or operator, a node is to hold: those that the tokens show at the place
where the node stands, whether the text around them is well formed or not. A node is found by its
span, which starts with its first token.
-/

namespace Eter

namespace TokenStream

variable (st : TokenStream) (i : ℕ)

def startAt : ℕ := (st.tokenAt i).tokenSpan.start

def endAt : ℕ := (st.tokenAt i).tokenSpan.end

/-- Behind the word, where it stands. -/
def past (word : Token.Kind) : ℕ := if st.kindAt i = word then i + 1 else i

/-- The regime that is written at the token. -/
def regimeAt : Parser.Regime :=
  match st.kindAt i with
  | .kw_imm => .Imm
  | .kw_mut => .Mut
  | .kw_proj => .Proj
  | _ => .None

def pastRegime : ℕ := if st.regimeAt i = .None then i else i + 1

/-- The tokens from `i` to `j` are those of a path. -/
def Paved (j : ℕ) : Prop :=
  i < j ∧ ∀ k, i ≤ k → k < j → st.kindAt k = .identifier ∨ st.kindAt k = .colon_colon

variable {st : TokenStream} {i j : ℕ}

theorem Paved.one (hk : st.kindAt i = .identifier) : st.Paved i (i + 1) :=
  ⟨Nat.lt_succ_self i, fun k hik hki => by
    obtain rfl : k = i := by omega
    exact .inl hk⟩

theorem Paved.next (h : st.Paved i j)
    (hk : st.kindAt j = .identifier ∨ st.kindAt j = .colon_colon) : st.Paved i (j + 1) := by
  refine ⟨h.1.trans (Nat.lt_succ_self j), fun k hik hkj => ?_⟩
  rcases Nat.lt_succ_iff_lt_or_eq.mp hkj with hlt | rfl
  · exact h.2 k hik hlt
  · exact hk

end TokenStream

namespace Parser
open Stateful Diag

/-! ### Names, regimes, and operators -/

/-- The keyword in front of a name without regime. -/
def keywordOf : NodeKind → Option Token.Kind
  | .StructDecl => some .kw_struct
  | .EnumDecl => some .kw_enum
  | .UnionDecl => some .kw_union
  | .ModDecl | .ModDeclFile => some .kw_mod
  | .ConstDecl => some .kw_const
  | .TraitDecl => some .kw_trait
  | _ => none

/-- The keyword in front of a regime and a name. -/
def binderOf : NodeKind → Option Token.Kind
  | .LetStmt => some .kw_let
  | .ForStmt => some .kw_for
  | _ => none

/-- Nodes whose name is all of their text. -/
def isSlice : NodeKind → Bool
  | .IdentPat | .IdentExpr | .PathExpr | .LitExpr | .LiteralPat | .NamedType | .DocComment
  | .FileDocComment => true
  | _ => false

/-- The bracket behind the path that names a node. -/
def openerOf : NodeKind → Option Token.Kind
  | .StructLitExpr | .StructPat => some .l_brace
  | .TuplePat => some .l_paren
  | _ => none

/-- An error node starts there. -/
def NodePool.ErrorAt (pool : NodePool) (a : ℕ) : Prop :=
  ∃ i d x, pool.get? i = some d ∧ d.kind = .Error ∧ pool.spanOf? i = some x ∧ x.start = a

/-- The name, if any, and the regime or operator that the tokens show for a node. The operator
of a binary expression is the token before its right operand, but for opening parentheses; an error
inside that operand may have taken the place of what it starts with. -/
inductive Spelling (st : TokenStream) (pool : NodePool) :
    NodeKind → Span → List NodeIndex → Option Bytes → ℕ → Prop where
  | fn {x : Span} {kids : List NodeIndex} {i j : ℕ} (hstart : x.start = st.startAt i)
      (hwords : j = st.past (st.past i .kw_unsafe_) .kw_fn) :
      Spelling st pool .FnDecl x kids (some (st.textAt (st.pastRegime j))) (st.regimeAt j).value
  | binder {kind : NodeKind} {x : Span} {kids : List NodeIndex} {i j : ℕ} {word : Token.Kind}
      (hstart : x.start = st.startAt i) (hword : binderOf kind = some word)
      (hj : j = st.past i word) :
      Spelling st pool kind x kids (some (st.textAt (st.pastRegime j))) (st.regimeAt j).value
  | marked {kind : NodeKind} {x : Span} {kids : List NodeIndex} {i : ℕ}
      (hkind : kind = .Param ∨ kind = .StructField) (hstart : x.start = st.startAt i) :
      Spelling st pool kind x kids (some (st.textAt (st.pastRegime i))) (st.regimeAt i).value
  | variant {kind : NodeKind} {x : Span} {kids : List NodeIndex} {i : ℕ}
      (hkind : kind = .EnumVariantUnit ∨ kind = .EnumVariantTuple ∨ kind = .EnumVariantStruct)
      (hstart : x.start = st.startAt i) :
      Spelling st pool kind x kids (some (st.textAt i)) Regime.None.value
  | named {kind : NodeKind} {x : Span} {kids : List NodeIndex} {i : ℕ} {word : Token.Kind}
      (hstart : x.start = st.startAt i) (hword : keywordOf kind = some word) :
      Spelling st pool kind x kids (some (st.textAt (st.past i word))) 0
  | first {kind : NodeKind} {x : Span} {kids : List NodeIndex} {i : ℕ}
      (hkind : kind = .FieldInit ∨ kind = .FieldPat ∨ kind = .GenericParam)
      (hstart : x.start = st.startAt i) : Spelling st pool kind x kids (some (st.textAt i)) 0
  | use {x : Span} {kids : List NodeIndex} {i j : ℕ} (hstart : x.start = st.startAt i)
      (hj : j = st.past (st.past i .kw_use) .identifier - 1) :
      Spelling st pool .UseDecl x kids (some (st.textOf ⟨st.startAt j, x.end⟩)) 0
  | slice {kind : NodeKind} {x : Span} {kids : List NodeIndex} (hkind : isSlice kind = true) :
      Spelling st pool kind x kids (some (st.textOf x)) Regime.None.value
  | self {x : Span} {kids : List NodeIndex} {i j : ℕ} (hspan : x = (st.tokenAt i).tokenSpan)
      (hself : st.textAt j = ascii "self") (hj : j = i ∨ j = i + 1) :
      Spelling st pool .NamedType x kids (some (ascii "Self")) 0
  | path {kind : NodeKind} {x : Span} {kids : List NodeIndex} {i j : ℕ} {word : Token.Kind}
      (hstart : x.start = st.startAt i) (hpath : st.Paved i j)
      (hword : openerOf kind = some word) (hopen : st.kindAt j = word) :
      Spelling st pool kind x kids (some (st.textFrom i j)) 0
  | tuplePat {x : Span} {kids : List NodeIndex} {i : ℕ} (hstart : x.start = st.startAt i)
      (hopen : st.kindAt i = .l_paren) : Spelling st pool .TuplePat x kids none 0
  | field {x : Span} {kids : List NodeIndex} {i : ℕ} (hdot : st.kindAt i = .dot)
      (hend : x.end = st.endAt (st.past (i + 1) .identifier - 1)) :
      Spelling st pool .FieldExpr x kids (some (st.textAt (i + 1))) 0
  | index {x : Span} {kids : List NodeIndex} {i : ℕ} (hdot : st.kindAt i = .dot)
      (hindex : st.kindAt (i + 1) = .integer_literal) (hend : x.end = st.endAt (i + 1)) :
      Spelling st pool .TupleIndexExpr x kids (some (st.textAt (i + 1))) 0
  | intIndex {x : Span} {kids : List NodeIndex} {i : ℕ} {a b : Bytes} (hdot : st.kindAt i = .dot)
      (hindex : st.kindAt (i + 1) = .float_literal)
      (htext : splitDot (st.textAt (i + 1)) = some (a, b)) (hend : x.end = st.endAt (i + 1)) :
      Spelling st pool .TupleIndexExpr x kids (some a) 0
  | fracIndex {x y : Span} {lhs : NodeIndex} {i : ℕ} {a b : Bytes} (hdot : st.kindAt i = .dot)
      (hindex : st.kindAt (i + 1) = .float_literal)
      (htext : splitDot (st.textAt (i + 1)) = some (a, b)) (hend : x.end = st.endAt (i + 1))
      (hlhs : pool.spanOf? lhs = some y) (hsame : y.end = x.end) :
      Spelling st pool .TupleIndexExpr x [lhs] (some (dropSuffixF b)) 0
  | unary {x : Span} {kids : List NodeIndex} {i : ℕ} (hstart : x.start = st.startAt i)
      (hop : 0 ≤ prefixBindingPower (st.kindAt i)) :
      Spelling st pool .UnaryExpr x kids none (st.kindAt i).value
  | binary {x y : Span} {lhs rhs : NodeIndex} {i j : ℕ}
      (hop : 0 ≤ (infixBindingPower (st.kindAt i)).1) (hlt : i < j)
      (hrhs : pool.spanOf? rhs = some y) (hstart : y.start = st.startAt j)
      (hbetween : (∀ k, i < k → k < j → st.kindAt k = .l_paren) ∨ pool.ErrorAt (st.startAt j)) :
      Spelling st pool .BinaryExpr x [lhs, rhs] none (st.kindAt i).value
  | plain {kind : NodeKind} {x : Span} {kids : List NodeIndex} (hkind : encodingOf kind = .plain) :
      Spelling st pool kind x kids none 0

/-- The payload of the record is what its tokens call for. A tensor counts its values in it. -/
def Worded (st : TokenStream) (pool : NodePool) (strings : StringInterner) (r : NodeRecord) :
    Prop :=
  ∃ name word, Spelling st pool r.kind r.span r.kids name word ∧
    (r.kind ≠ .TensorLitExpr → Follows strings r.payload name word (encodingOf r.kind))

/-! ### What later states retain -/

structure PState.Retains (s t : PState) : Prop where
  precedes : s.Precedes t
  names : NamesStay s t

variable {st : TokenStream} {s t u : PState} {strings strings' : StringInterner}
  {id : InternedStr} {name : Option Bytes} {word i : ℕ} {r : NodeRecord}

theorem retains_grow : StepsGrow PState.Retains where
  refl s := ⟨.refl s, namesStay_grow.refl s⟩
  trans h h' := ⟨h.precedes.trans h'.precedes, namesStay_grow.trans h.names h'.names⟩
  advance s := ⟨precedes_grow.advance s, namesStay_grow.advance s⟩
  intern s text := ⟨precedes_grow.intern s text, namesStay_grow.intern s text⟩
  alloc s _ _ _ _ _ := ⟨precedes_grow.alloc s _ _ _ _ _, namesStay_grow.alloc s _ _ _ _ _⟩
  report s d := ⟨precedes_grow.report s d, namesStay_grow.report s d⟩
  countStray s m := ⟨precedes_grow.countStray s m, namesStay_grow.countStray s m⟩
  slip s e := ⟨precedes_grow.slip s e, namesStay_grow.slip s e⟩
  lit s t lit h := ⟨precedes_grow.lit s t lit h.precedes, namesStay_grow.lit s t lit h.names⟩

theorem retains_walk : DeclWalk fun _ m => Leads PState.Retains m := retains_grow.declWalk

theorem PState.Retains.trans (h : s.Retains t) (h' : t.Retains u) : s.Retains u :=
  retains_grow.trans h h'

theorem PState.Retains.spanOf? (h : s.Retains t) {x : NodeIndex} {y : Span}
    (hx : s.pool.spanOf? x = some y) : t.pool.spanOf? x = some y := by
  cases x with
  | none => cases hx
  | some x =>
    obtain ⟨rest, hrest⟩ := h.precedes.spans
    show t.pool.spans[x]? = some y
    rw [← hrest, List.getElem?_append_left (List.getElem?_eq_some_iff.mp hx).1]
    exact hx

theorem Identifies.later (h : Identifies strings id name)
    (hnames : ∀ id text, strings.get? id = some text → strings'.get? id = some text) :
    Identifies strings' id name := by
  cases name with
  | none => exact h
  | some text => exact hnames id text h

theorem Follows.later {payload : ℕ} {e : Encoding} (h : Follows strings payload name word e)
    (hnames : ∀ id text, strings.get? id = some text → strings'.get? id = some text) :
    Follows strings' payload name word e := by
  cases e with
  | packed =>
    obtain ⟨id, r, hid, hr⟩ := h
    exact ⟨id, r, hid.later hnames, hr⟩
  | name => exact Identifies.later h hnames
  | packedNone =>
    obtain ⟨id, hid, hpayload⟩ := h
    exact ⟨id, hid.later hnames, hpayload⟩
  | operator => exact h
  | plain => exact h

theorem NodePool.ErrorAt.later {a : ℕ} (h : s.pool.ErrorAt a) (hst : s.Retains t) :
    t.pool.ErrorAt a := by
  obtain ⟨i, d, x, hd, hkind, hx, ha⟩ := h
  refine ⟨i, d, x, ?_, hkind, hst.spanOf? hx, ha⟩
  cases i with
  | none => cases hd
  | some i =>
    obtain ⟨rest, hrest⟩ := hst.precedes.nodes
    show t.pool.nodes[i]? = some d
    rw [← hrest, List.getElem?_append_left (List.getElem?_eq_some_iff.mp hd).1]
    exact hd

theorem Spelling.later {kind : NodeKind} {x : Span} {kids : List NodeIndex}
    (h : Spelling st s.pool kind x kids name word) (hst : s.Retains t) :
    Spelling st t.pool kind x kids name word := by
  cases h with
  | fn hstart hwords => exact .fn hstart hwords
  | binder hstart hword hj => exact .binder hstart hword hj
  | marked hkind hstart => exact .marked hkind hstart
  | variant hkind hstart => exact .variant hkind hstart
  | named hstart hword => exact .named hstart hword
  | first hkind hstart => exact .first hkind hstart
  | use hstart hj => exact .use hstart hj
  | slice hkind => exact .slice hkind
  | self hspan hself hj => exact .self hspan hself hj
  | path hstart hpath hword hopen => exact .path hstart hpath hword hopen
  | tuplePat hstart hopen => exact .tuplePat hstart hopen
  | field hdot hend => exact .field hdot hend
  | index hdot hindex hend => exact .index hdot hindex hend
  | intIndex hdot hindex htext hend => exact .intIndex hdot hindex htext hend
  | fracIndex hdot hindex htext hend hlhs hsame =>
    exact .fracIndex hdot hindex htext hend (hst.spanOf? hlhs) hsame
  | unary hstart hop => exact .unary hstart hop
  | binary hop hlt hrhs hstart hbetween =>
    exact .binary hop hlt (hst.spanOf? hrhs) hstart (hbetween.imp id fun herr => herr.later hst)
  | plain hkind => exact .plain hkind

theorem Worded.later (h : Worded st s.pool s.interner r) (hst : s.Retains t) :
    Worded st t.pool t.interner r := by
  obtain ⟨name, word, hspell, hfollows⟩ := h
  exact ⟨name, word, hspell.later hst, fun hne => (hfollows hne).later hst.names⟩

/-! ### States and computations -/

/-- The tokens have a place where such a slip can happen. -/
def Slip.Shown (st : TokenStream) : Slip → Prop
  | .bareUnsafe => ∃ i, st.kindAt i = .kw_unsafe_ ∧ st.kindAt (i + 1) ≠ .l_brace
  | .gappedParam => ∃ i, startsParam (st.kindAt i) = false ∧ st.endAt (i - 1) ≠ st.startAt i

/-- Before token `i` of the stream, and the payloads of all nodes are what the tokens call for. -/
structure Faithful (st : TokenStream) (i : ℕ) (s : PState) : Prop where
  tokens : s.stream.tokens = st.tokens
  source : s.stream.source = st.source
  cursor : s.stream.cursor = i
  slips : ∀ e ∈ s.slips, e.Shown st
  records : ∃ rs, s.pool = poolOf (sentinel :: rs) ∧ ∀ r ∈ rs, Worded st s.pool s.interner r

/-- Whenever `m` succeeds from `s`, the payloads are still so and the result is in `Q`. -/
def Upholds {α : Type} (st : TokenStream) (m : ParserM α) (Q : α → ℕ → PState → Prop) (s : PState) :
    Prop :=
  ∀ a t, m s = .ok (a, t) → s.Retains t ∧ Faithful st t.stream.cursor t ∧ Q a t.stream.cursor t

/-- A computation that keeps the payloads so, from every state. -/
class Tells {α : Type} (st : TokenStream) (m : ParserM α) : Prop where
  upholds : ∀ i s, Faithful st i s → Upholds st m (fun _ _ _ => True) s

variable {α β : Type} {m m' : ParserM α} {f : α → ParserM β} {Q Q' : α → ℕ → PState → Prop}
  {R : β → ℕ → PState → Prop} {j : ℕ}

theorem Upholds.pure {a : α} (h : Faithful st i s) (hQ : Q a i s) : Upholds st (pure a) Q s := by
  rintro _ _ ⟨⟩
  exact ⟨retains_grow.refl s, by rw [h.cursor]; exact h, by rw [h.cursor]; exact hQ⟩

theorem Upholds.bind (hm : Upholds st m Q s)
    (hf : ∀ a j t, Faithful st j t → s.Retains t → Q a j t → Upholds st (f a) R t) :
    Upholds st (m >>= f) R s := by
  intro b u hb
  obtain ⟨a, t, ha, hb⟩ := of_bind_ok hb
  obtain ⟨hst, ht, hQ⟩ := hm a t ha
  obtain ⟨htu, hu⟩ := hf a _ t ht hst hQ b u hb
  exact ⟨hst.trans htu, hu⟩

theorem Upholds.mono (hm : Upholds st m Q s)
    (h : ∀ a j t, Faithful st j t → s.Retains t → Q a j t → Q' a j t) : Upholds st m Q' s := by
  intro a t ha
  obtain ⟨hst, ht, hQ⟩ := hm a t ha
  exact ⟨hst, ht, h a _ t ht hst hQ⟩

/-- The result of a computation that only reads the state. -/
theorem Upholds.read {a : α} (hm : m s = .ok (a, s)) (hf : Upholds st (f a) R s) :
    Upholds st (m >>= f) R s := by
  intro b u hbind
  obtain ⟨a', t, ha, hb⟩ := of_bind_ok hbind
  rw [hm] at ha
  cases ha
  exact hf b u hb

/-- What a turn keeps, a loop keeps. -/
theorem Upholds.iterate {γ : Type} {turn : α → ParserM (Turn α γ)} {I : α → ℕ → PState → Prop}
    {R : γ → ℕ → PState → Prop}
    (hturn : ∀ a i s, Faithful st i s → I a i s →
      Upholds st (turn a) (fun r j t => r.Leads (fun a' => I a' j t) (fun c => R c j t)) s)
    (n : ℕ) {a : α} (h : Faithful st i s) (hI : I a i s) : Upholds st (iterate turn n a) R s := by
  induction n generalizing a i s with
  | zero => rintro _ _ ⟨⟩
  | succ n ih =>
    refine Upholds.bind (hturn a i s h hI) fun r j t ht _ hr => ?_
    cases r with
    | again a' => exact ih ht hr
    | done c => exact Upholds.pure ht hr

theorem Upholds.told (hm : Upholds st m Q s) : Upholds st m (fun _ _ _ => True) s :=
  hm.mono fun _ _ _ _ _ _ => trivial

/-- A step that leaves the pool as it is. -/
theorem Tells.of_idle (hleads : Leads PState.Retains m)
    (hidle : ∀ s a t, m s = .ok (a, t) → t.pool = s.pool ∧ t.slips = s.slips) : Tells st m where
  upholds i s h a t hm := by
    have hst := hleads s a t hm
    obtain ⟨hpool, hslips⟩ := hidle s a t hm
    obtain ⟨rs, hrs, hworded⟩ := h.records
    exact ⟨hst, ⟨hst.precedes.tokens.trans h.tokens, hst.precedes.source.trans h.source, rfl,
      hslips ▸ h.slips, rs, hpool.trans hrs, fun r hr => (hworded r hr).later hst⟩, trivial⟩

namespace Tells

instance pure (a : α) : Tells st (pure a : ParserM α) := ⟨fun _ _ h => Upholds.pure h trivial⟩

instance bind [hm : Tells st m] [hf : ∀ a, Tells st (f a)] : Tells st (m >>= f) :=
  ⟨fun i s h => (hm.upholds i s h).bind fun a j t ht _ _ => (hf a).upholds j t ht⟩

instance ite {c : Prop} [Decidable c] [hm : Tells st m] [hm' : Tells st m'] :
    Tells st (if c then m else m') where
  upholds := by
    split_ifs
    · exact hm.upholds
    · exact hm'.upholds

instance iterate {γ : Type} {turn : α → ParserM (Turn α γ)} [hturn : ∀ a, Tells st (turn a)]
    (n : ℕ) (a : α) : Tells st (iterate turn n a) :=
  ⟨fun _ _ h => Upholds.iterate (I := fun _ _ _ => True) (fun a i s h _ =>
    ((hturn a).upholds i s h).mono fun r _ _ _ _ _ => by cases r <;> trivial) n h trivial⟩

instance fuel : Tells st (throw .fuel : ParserM α) := ⟨fun _ _ _ _ _ hm => nomatch hm⟩

end Tells

end Parser

end Eter
