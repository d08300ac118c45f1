import Eter.GrammarRuns
import Eter.LexerRoundTrip

/-!
# Expressions are read back

Whatever expression the words were written for, the grammar derives its tree from them: the
precedence and the associativity of the operators, the nesting and the texts are all there.
-/

namespace Eter

namespace TokenStream
open Eter.Parser

variable {st : TokenStream} {i : ℕ} {w : Word} {ws ws' : List Word}

def Stands (st : TokenStream) (i : ℕ) (w : Word) : Prop :=
  st.kindAt i = w.kind ∧ ∀ text, w.text = some text → st.textAt i = text

/-- From token `i` on the stream shows the words. -/
def Shows (st : TokenStream) : ℕ → List Word → Prop
  | _, [] => True
  | i, w :: ws => st.Stands i w ∧ st.Shows (i + 1) ws

theorem shows_append :
    st.Shows i (ws ++ ws') ↔ st.Shows i ws ∧ st.Shows (i + ws.length) ws' := by
  induction ws generalizing i with
  | nil => simp [Shows]
  | cons w ws ih =>
    rw [List.cons_append, Shows, Shows, ih, and_assoc, List.length_cons, Nat.add_right_comm,
      Nat.add_assoc]

theorem shows_parenthesised : st.Shows i (parenthesised ws) ↔
    st.kindAt i = .l_paren ∧ st.Shows (i + 1) ws ∧ st.kindAt (i + 1 + ws.length) = .r_paren := by
  unfold parenthesised
  rw [List.cons_append, Shows, shows_append]
  simp [Shows, Stands, sign]

end TokenStream

namespace Parser
open Stateful NodePool

variable {st : TokenStream} {b : Bool} {s : PState} {n i j : ℕ} {e : Expression}
  {es : List Expression} {ws : List Word} {op : InfixOperator} {ts : List SyntaxTree}

/-! ### Trees that fit -/

theorem stored_node {kind : NodeKind} {flags rest : ℕ} {name : Option Bytes}
    (hts : ∀ t ∈ ts, t.stored = t) (hlen : ts.length < 2 ^ 16) :
    (SyntaxTree.node kind flags name rest ts).stored = .node kind flags name rest ts := by
  have hmap : storedAll ts = ts := by
    rw [storedAll_eq_map]
    exact List.map_congr_left hts |>.trans (List.map_id ts)
  rw [SyntaxTree.stored, hmap, Nat.mod_eq_of_lt hlen, List.take_length]

theorem stored_trees (h : ∀ e ∈ es, e.tree.stored = e.tree) :
    ∀ t ∈ Expression.trees es, t.stored = t := by
  rw [Expression.trees_eq_map]
  exact List.forall_mem_map.mpr h

/-- All children of the nodes of a tree that fits are kept. -/
theorem stored_tree (e : Expression) (hfit : e.Fits) : e.tree.stored = e.tree := by
  induction e using Expression.induct with
  | literal k text => exact stored_node (by simp) (by simp)
  | ident text => exact stored_node (by simp) (by simp)
  | unary op e he => exact stored_node (by simpa using he hfit) (by simp)
  | binary op l r hl hr => exact stored_node (by simpa using ⟨hl hfit.1, hr hfit.2⟩) (by simp)
  | call f args hf hargs =>
    have hargs' : ∀ a ∈ args, a.tree.stored = a.tree := fun a ha =>
      hargs a ha (Expression.allFit_iff.mp hfit.2.1 a ha)
    have hlist : (SyntaxTree.node .ArgList 0 none 0 (Expression.trees args)).stored = _ :=
      stored_node (stored_trees hargs') (by rw [Expression.length_trees]; exact hfit.2.2)
    exact stored_node (by simpa using ⟨hf hfit.1, hlist⟩) (by simp)
  | field e f he => exact stored_node (by simpa using he hfit) (by simp)
  | tupleIndex e text he => exact stored_node (by simpa using he hfit) (by simp)
  | index e i is he hi his =>
    have his' : ∀ x ∈ e :: i :: is, x.tree.stored = x.tree := by
      intro x hx
      rcases List.mem_cons.mp hx with rfl | hx
      · exact he hfit.1
      rcases List.mem_cons.mp hx with rfl | hx
      · exact hi hfit.2.1
      · exact his x hx (Expression.allFit_iff.mp hfit.2.2.1 x hx)
    have hlen : (Expression.trees (e :: i :: is)).length < 2 ^ 16 := by
      rw [Expression.length_trees]
      exact hfit.2.2.2
    exact stored_node (stored_trees his') hlen
  | propagate e he => exact stored_node (by simpa using he hfit) (by simp)
  | cast e type he =>
    have htype : (SyntaxTree.node .NamedType 0 (some type) 0 []).stored = _ :=
      stored_node (by simp) (by simp)
    exact stored_node (by simpa using ⟨he hfit, htype⟩) (by simp)
  | tuple es h =>
    refine stored_node (stored_trees fun e he => h e he (Expression.allFit_iff.mp hfit.1 e he)) ?_
    rw [Expression.length_trees]
    exact hfit.2
  | array es h =>
    refine stored_node (stored_trees fun e he => h e he (Expression.allFit_iff.mp hfit.1 e he)) ?_
    rw [Expression.length_trees]
    exact hfit.2
  | repeated e count he hcount =>
    exact stored_node (by simpa using ⟨he hfit.1, hcount hfit.2⟩) (by simp)

/-! ### Operands -/

/-- Neither a struct literal nor a path goes on with the token. -/
def Continues (k : Token.Kind) : Prop := k ≠ .l_brace ∧ k ≠ .colon_colon

theorem continues_of_isSync {k : Token.Kind} (h : isSync k = true) : Continues k := by
  refine ⟨?_, ne_path_of_isSync h⟩
  rintro rfl
  cases h

theorem continues_operator (op : InfixOperator) : Continues op := by
  obtain ⟨k, hk⟩ := op
  revert hk
  cases k <;> simp [precedence, Continues]

/-- The grammar derives the tree of the expression from its words. -/
def Printed (st : TokenStream) (e : Expression) : Prop :=
  ∀ lit i j, st.Shows i e.words → j = i + e.words.length → Continues (st.kindAt j) →
    Derives st lit (.expr e.precedence) i j [e.tree]

theorem precedence_le (e : Expression) : e.precedence ≤ 120 := by
  cases e with
  | binary op l r =>
    show precedence op ≤ 120
    rcases precedence_cases op with ⟨-, hp, -⟩ | ⟨-, -, hp, -⟩ <;> omega
  | unary => exact (by decide : 110 ≤ 120)
  | _ => exact le_rfl

/-- In front of a token that ends every expression. -/
theorem Printed.full (h : Printed st e) (hw : st.Shows i e.words) (hj : j = i + e.words.length)
    (hk : isSync (st.kindAt j) = true) : Derives st b .full i j [e.tree] :=
  .full (h b i j hw hj (continues_of_isSync hk)) (Ends.of_isSync hk le_rfl)

/-- In parentheses where they are required. -/
theorem Printed.wrapped (h : Printed st e) {least : ℕ} (hleast : least ≤ 120)
    (hw : st.Shows i (Expression.wrapped least e e.words))
    (hj : j = i + (Expression.wrapped least e e.words).length) (hk : Continues (st.kindAt j)) :
    ∃ p, least ≤ p ∧ p ≤ 120 ∧ Derives st b (.expr p) i j [e.tree] := by
  unfold Expression.wrapped at hw hj
  split at hw
  · next hlt =>
    rw [if_pos hlt, length_parenthesised] at hj
    obtain ⟨hopen, hinner, hclose⟩ := TokenStream.shows_parenthesised.mp hw
    rw [show j = i + 1 + e.words.length + 1 by omega]
    exact ⟨120, hleast, le_rfl, .grouped hopen (h.full hinner rfl (by rw [hclose]; rfl)) hclose⟩
  · next hge =>
    rw [if_neg hge] at hj
    exact ⟨_, not_lt.mp hge, precedence_le e, h b i j hw hj hk⟩

/-- The operand of a postfix form. -/
theorem Printed.base (h : Printed st e) (hw : st.Shows i (Expression.wrapped 120 e e.words))
    (hk : Continues (st.kindAt (i + (Expression.wrapped 120 e e.words).length))) :
    Derives st b (.expr 120) i (i + (Expression.wrapped 120 e e.words).length) [e.tree] := by
  obtain ⟨p, hp, hp', hder⟩ := h.wrapped (b := b) le_rfl hw rfl hk
  obtain rfl : p = 120 := le_antisymm hp' hp
  exact hder

/-! ### Lists -/

/-- Behind an element is a comma, or what is behind the list. -/
theorem isSync_behind (hw : st.Shows i (Expression.moreWords es))
    (hk : isSync (st.kindAt (i + (Expression.moreWords es).length)) = true) :
    isSync (st.kindAt i) = true := by
  cases es with
  | nil => exact hk
  | cons e es =>
    rw [hw.1.1]
    rfl

theorem Derives.commas_of_list (h : Derives st b (.list .full) i j ts) :
    Derives st b (.commas .full) i j ts := by
  generalize hph : Phrase.list .full = ph at h
  induction h with
  | noList => exact .noCommas
  | lastList h => cases hph; exact .lastCommas h
  | moreList h hcomma _ _ ih => cases hph; exact .moreCommas h hcomma (ih rfl)
  | _ => cases hph

theorem printed_more (he : Printed st e) (h : ∀ x ∈ es, Printed st x)
    (hw : st.Shows i (e.words ++ Expression.moreWords es))
    (hj : j = i + (e.words ++ Expression.moreWords es).length)
    (hk : isSync (st.kindAt j) = true) :
    Derives st b (.list .full) i j (Expression.trees (e :: es)) := by
  rw [List.length_append, ← Nat.add_assoc] at hj
  subst hj
  induction es generalizing e i with
  | nil => exact .lastList (he.full (TokenStream.shows_append.mp hw).1 rfl hk)
  | cons f es ih =>
    obtain ⟨hfirst, hmore⟩ := TokenStream.shows_append.mp hw
    have hsync := isSync_behind hmore hk
    obtain ⟨⟨hcomma, -⟩, hrest⟩ := hmore
    have hlen : i + e.words.length + (Expression.moreWords (f :: es)).length =
        i + e.words.length + 1 + f.words.length + (Expression.moreWords es).length := by
      rw [Expression.length_moreWords]
      omega
    rw [hlen] at hk ⊢
    refine .moreList (he.full hfirst rfl hsync) hcomma ?_
    exact ih (h f (List.mem_cons_self ..)) (fun x hx => h x (List.mem_cons_of_mem _ hx)) hrest hk

theorem printed_list (h : ∀ x ∈ es, Printed st x) (hw : st.Shows i (Expression.listWords es))
    (hj : j = i + (Expression.listWords es).length) (hk : isSync (st.kindAt j) = true) :
    Derives st b (.list .full) i j (Expression.trees es) := by
  cases es with
  | nil =>
    obtain rfl : j = i := hj
    exact .noList
  | cons e es =>
    exact printed_more (h e (List.mem_cons_self ..)) (fun x hx => h x (List.mem_cons_of_mem _ hx))
      hw hj hk

/-! ### Forms of expressions -/

theorem textFrom_single (st : TokenStream) (i : ℕ) : st.textFrom i (i + 1) = st.textAt i := rfl

theorem printed_ident {text : Bytes} : Printed st (.ident text) := by
  intro lit i j hw hj hk
  obtain ⟨⟨hname, htext⟩, -⟩ := hw
  obtain rfl : j = i + 1 := hj
  have hder : Derives st lit (.expr 120) i (i + 1) _ := .name hname .nil hk.2 fun _ => hk.1
  rwa [if_pos rfl, textFrom_single, htext text rfl] at hder

theorem printed_unary {op : PrefixOperator} (he : Printed st e) : Printed st (.unary op e) := by
  intro lit i j hw hj hk
  obtain ⟨⟨hop, -⟩, hrest⟩ := hw
  rw [Expression.words, List.length_cons, Nat.add_comm _ 1, ← Nat.add_assoc] at hj
  subst hj
  obtain ⟨p, hp, -, hoperand⟩ := he.wrapped (b := lit) (by decide) hrest rfl hk
  have hop : st.kindAt i = op := hop
  have hder := Derives.unary (by rw [hop]; exact op.2) hoperand hp
  rwa [hop] at hder

theorem left_le (op : InfixOperator) : Expression.leftPrecedence op ≤ 120 ∧
    Expression.rightPrecedence op ≤ 120 := by
  unfold Expression.leftPrecedence Expression.rightPrecedence
  rcases precedence_cases op with ⟨hr, hp, -⟩ | ⟨hl, -, hp, -⟩
  · rw [if_pos hr, if_pos hr]
    omega
  · rw [hl, if_neg Bool.false_ne_true, if_neg Bool.false_ne_true]
    omega

theorem printed_binary {l r : Expression} (hl : Printed st l) (hr : Printed st r) :
    Printed st (.binary op l r) := by
  intro lit i j hw hj hk
  obtain ⟨hleft, ⟨hop, -⟩, hright⟩ := TokenStream.shows_append.mp hw
  rw [Expression.words, List.length_append, List.length_cons] at hj
  have hop : st.kindAt (i + (Expression.wrapped (Expression.leftPrecedence op) l l.words).length) =
    op := hop
  obtain ⟨p, hp, -, hderl⟩ := hl.wrapped (b := lit) (left_le op).1 hleft rfl (by
    rw [hop]; exact continues_operator op)
  obtain ⟨q, hq, -, hderr⟩ := hr.wrapped (b := lit) (j := j) (left_le op).2 hright (by omega) hk
  have hpos : 0 < precedence
      (st.kindAt (i + (Expression.wrapped (Expression.leftPrecedence op) l l.words).length)) := by
    rw [hop]
    exact op.2
  have hsame : (⟨_, hpos⟩ : InfixOperator) = op := Subtype.ext hop
  have hder := Derives.binary hderl hpos (by rwa [hsame]) hderr (by rwa [hsame])
  rwa [hop] at hder

theorem printed_call (he : Printed st e) (h : ∀ x ∈ es, Printed st x) : Printed st (.call e es) := by
  intro lit i j hw hj hk
  obtain ⟨hbase, hargs⟩ := TokenStream.shows_append.mp hw
  obtain ⟨hopen, hlist, hclose⟩ := TokenStream.shows_parenthesised.mp hargs
  rw [Expression.words, List.length_append, length_parenthesised] at hj
  have hder := he.base (b := lit) hbase (by rw [hopen]; exact ⟨by decide, by decide⟩)
  have hargs : Derives st lit .args _ _ _ :=
    .args hopen (printed_list h hlist rfl (by rw [hclose]; rfl)) hclose
  rw [show j = i + (Expression.wrapped 120 e e.words).length + 1 + (Expression.listWords es).length + 1
    by omega]
  exact .call hder hargs

theorem printed_field {name : Bytes} (he : Printed st e) : Printed st (.field e name) := by
  intro lit i j hw hj hk
  obtain ⟨hbase, ⟨hdot, -⟩, ⟨hname, htext⟩, -⟩ := TokenStream.shows_append.mp hw
  rw [Expression.words, List.length_append, ← Nat.add_assoc] at hj
  subst hj
  have hdot : st.kindAt (i + (Expression.wrapped 120 e e.words).length) = .dot := hdot
  have hder := Derives.field (he.base (b := lit) hbase (by rw [hdot]; exact ⟨by decide, by decide⟩))
    hdot hname
  rwa [htext name rfl] at hder

theorem printed_tupleIndex {text : Bytes} (he : Printed st e) : Printed st (.tupleIndex e text) := by
  intro lit i j hw hj hk
  obtain ⟨hbase, ⟨hdot, -⟩, ⟨hindex, htext⟩, -⟩ := TokenStream.shows_append.mp hw
  rw [Expression.words, List.length_append, ← Nat.add_assoc] at hj
  subst hj
  have hdot : st.kindAt (i + (Expression.wrapped 120 e e.words).length) = .dot := hdot
  have hder := Derives.tupleIndex
    (he.base (b := lit) hbase (by rw [hdot]; exact ⟨by decide, by decide⟩)) hdot hindex
  rwa [htext text rfl] at hder

theorem printed_index {f : Expression} (he : Printed st e) (h : ∀ x ∈ f :: es, Printed st x) :
    Printed st (.index e f es) := by
  intro lit i j hw hj hk
  rw [Expression.words_index] at hw hj
  obtain ⟨hbase, ⟨hopen, -⟩, hrest⟩ := TokenStream.shows_append.mp hw
  obtain ⟨hlist, ⟨hclose, -⟩, -⟩ := TokenStream.shows_append.mp hrest
  simp only [List.length_append, List.length_cons, List.length_nil] at hj
  have hopen : st.kindAt (i + (Expression.wrapped 120 e e.words).length) = .l_square := hopen
  have hder := he.base (b := lit) hbase (by rw [hopen]; exact ⟨by decide, by decide⟩)
  have hindices := printed_list (b := true) h hlist rfl (by rw [hclose]; rfl)
  have hindex := Derives.index hder hopen hindices.commas_of_list (by simp [Expression.trees]) hclose
  rw [show j = i + (Expression.wrapped 120 e e.words).length + 1 +
    (Expression.listWords (f :: es)).length + 1 by omega]
  have hkind : (if 1 < (Expression.trees (f :: es)).length then NodeKind.TensorIndexExpr
      else NodeKind.IndexExpr) = if es = [] then .IndexExpr else .TensorIndexExpr := by
    rw [Expression.length_trees]
    cases es <;> simp
  rwa [hkind] at hindex

theorem printed_propagate (he : Printed st e) : Printed st (.propagate e) := by
  intro lit i j hw hj hk
  obtain ⟨hbase, ⟨hmark, -⟩, -⟩ := TokenStream.shows_append.mp hw
  rw [Expression.words, List.length_append, ← Nat.add_assoc] at hj
  subst hj
  have hmark : st.kindAt (i + (Expression.wrapped 120 e e.words).length) = .question := hmark
  exact .propagate (he.base hbase (by rw [hmark]; exact ⟨by decide, by decide⟩)) hmark

theorem printed_cast {type : Bytes} (he : Printed st e) : Printed st (.cast e type) := by
  intro lit i j hw hj hk
  obtain ⟨hbase, ⟨hword, -⟩, ⟨hname, htext⟩, -⟩ := TokenStream.shows_append.mp hw
  rw [Expression.words, List.length_append, ← Nat.add_assoc] at hj
  subst hj
  have hword : st.kindAt (i + (Expression.wrapped 120 e e.words).length) = .kw_as := hword
  have htype : Derives st lit .type _ _ _ := .namedType (.inl hname) .nil hk.2
  rw [textFrom_single, htext type rfl] at htype
  exact .cast (he.base hbase (by rw [hword]; exact ⟨by decide, by decide⟩)) hword htype

theorem printed_tuple (h : ∀ x ∈ es, Printed st x) : Printed st (.tuple es) := by
  intro lit i j hw hj hk
  rw [Expression.words] at hw hj
  obtain ⟨hopen, hinner, hclose⟩ := TokenStream.shows_parenthesised.mp hw
  rw [length_parenthesised] at hj
  rcases es with _ | ⟨e, _ | ⟨f, es⟩⟩
  · obtain rfl : j = i + 2 := hj
    exact .unit hopen hclose
  · have hlen : (Expression.listWords [e] ++ if [e].length = 1 then [sign .comma] else []).length =
        e.words.length + 1 := by
      simp [Expression.listWords, Expression.moreWords]
    have hwords : st.Shows (i + 1) (e.words ++ [sign .comma]) := by
      simpa [Expression.listWords, Expression.moreWords] using hinner
    obtain ⟨hfirst, ⟨hcomma, -⟩, -⟩ := TokenStream.shows_append.mp hwords
    rw [hlen] at hj hclose
    have hcomma : st.kindAt (i + 1 + e.words.length) = .comma := hcomma
    have hder := (h e (List.mem_singleton_self e)).full (b := true) hfirst rfl (by rw [hcomma]; rfl)
    rw [hj, show i + (e.words.length + 1 + 2) = i + 1 + e.words.length + 1 + 1 by omega]
    exact .tuple hopen hder hcomma .noCommas hclose
  · rw [if_neg (by simp), List.append_nil] at hinner hj hclose
    obtain ⟨hfirst, hmore⟩ := TokenStream.shows_append.mp hinner
    obtain ⟨⟨hcomma, -⟩, hrest⟩ := hmore
    have hlen : (Expression.listWords (e :: f :: es)).length =
        e.words.length + 1 + (f.words ++ Expression.moreWords es).length := by
      simp only [Expression.listWords, Expression.moreWords, List.length_append, List.length_cons]
      omega
    rw [hlen] at hj hclose
    have hcomma : st.kindAt (i + 1 + e.words.length) = .comma := hcomma
    have hder := (h e (List.mem_cons_self ..)).full (b := true) hfirst rfl (by rw [hcomma]; rfl)
    have hclose : st.kindAt (i + 1 + e.words.length + 1 +
        (f.words ++ Expression.moreWords es).length) = .r_paren := by
      rw [← hclose]
      congr 1
      omega
    have hrest := printed_more (b := true) (h f (by simp)) (fun x hx => h x (by simp [hx])) hrest rfl
      (by rw [hclose]; rfl)
    rw [show j = i + 1 + e.words.length + 1 + (f.words ++ Expression.moreWords es).length + 1 by omega]
    exact .tuple hopen hder hcomma hrest.commas_of_list hclose

theorem printed_array (h : ∀ x ∈ es, Printed st x) : Printed st (.array es) := by
  intro lit i j hw hj hk
  obtain ⟨⟨hopen, -⟩, hrest⟩ := hw
  obtain ⟨hlist, ⟨hclose, -⟩, -⟩ := TokenStream.shows_append.mp hrest
  rw [Expression.words, List.length_append, List.length_cons, List.length_singleton] at hj
  have hder := printed_list (b := true) h hlist rfl (by rw [hclose]; rfl)
  rw [show j = i + 1 + (Expression.listWords es).length + 1 by omega]
  exact .array hopen hder.commas_of_list hclose

theorem printed_repeated {count : Expression} (he : Printed st e) (hcount : Printed st count) :
    Printed st (.repeated e count) := by
  intro lit i j hw hj hk
  obtain ⟨hfront, ⟨hclose, -⟩, -⟩ := TokenStream.shows_append.mp hw
  obtain ⟨⟨⟨hopen, -⟩, hfirst⟩, ⟨hsemi, -⟩, hsecond⟩ := TokenStream.shows_append.mp hfront
  simp only [Expression.words, List.length_append, List.length_cons, List.length_nil] at hj
  have hclose' : st.kindAt (i + 1 + e.words.length + 1 + count.words.length) = .r_square := by
    refine Eq.trans ?_ hclose
    congr 1
    simp only [List.length_append, List.length_cons]
    omega
  have hsemi' : st.kindAt (i + 1 + e.words.length) = .semi := by
    refine Eq.trans ?_ hsemi
    congr 1
    simp only [List.length_cons]
    omega
  have hsecond' : st.Shows (i + 1 + e.words.length + 1) count.words := by
    convert hsecond using 2
    simp only [List.length_cons]
    omega
  rw [show j = i + 1 + e.words.length + 1 + count.words.length + 1 by omega]
  exact .repeated hopen (he.full hfirst rfl (by rw [hsemi']; rfl)) hsemi'
    (hcount.full hsecond' rfl (by rw [hclose']; rfl)) hclose'

/-- The words of every expression are derived as its tree. -/
theorem printed (st : TokenStream) (e : Expression) : Printed st e := by
  induction e using Expression.induct with
  | literal k text =>
    intro lit i j hw hj hk
    obtain ⟨⟨hkind, htext⟩, -⟩ := hw
    obtain rfl : j = i + 1 := hj
    have hlit : isLiteral (st.kindAt i) = true := by
      rw [show st.kindAt i = k from hkind]
      exact k.2
    have hder : Derives st lit (.expr 120) i (i + 1) _ := .literal hlit
    rwa [htext text rfl] at hder
  | ident text => exact printed_ident
  | unary op e he => exact printed_unary he
  | binary op l r hl hr => exact printed_binary hl hr
  | call f args hf hargs => exact printed_call hf hargs
  | field e name he => exact printed_field he
  | tupleIndex e text he => exact printed_tupleIndex he
  | index e i is he hi his =>
    refine printed_index he fun x hx => ?_
    rcases List.mem_cons.mp hx with rfl | hx
    · exact hi
    · exact his x hx
  | propagate e he => exact printed_propagate he
  | cast e type he => exact printed_cast he
  | tuple es h => exact printed_tuple h
  | array es h => exact printed_array h
  | repeated e count he hcount => exact printed_repeated he hcount

/-! ### From any state -/

/-- Up to a token that ends it an expression is read as it was written. -/
theorem expression_runs (e : Expression) (hfit : e.Fits) (hs : s.Ordered)
    (hw : s.stream.Shows s.stream.cursor e.words)
    (hends : Ends (s.kindAt (s.stream.cursor + e.words.length)) 0)
    (hk : Continues (s.kindAt (s.stream.cursor + e.words.length)))
    (hn : 4 * e.words.length + 1 ≤ n) :
    Yields (run n (.expr 0)) (s.Parsed (s.stream.cursor + e.words.length) e.tree) s := by
  have hder := Derives.full (printed s.stream e s.structLitAllowed _ _ hw rfl hk) hends
  have helem : Element _ _ exprParser 1 _ _ e.tree := hder.reading
  have hruns := helem.runs n (by omega) s ⟨rfl, rfl, rfl, rfl, hs⟩
  rwa [stored_tree e hfit] at hruns

/-- Whatever was parsed before, an expression is read back from its tokens with nothing reported. -/
theorem expression_read_back (e : Expression) (hfit : e.Fits) (n : ℕ) (s : PState) (hs : s.Ordered)
    (hw : s.stream.Shows s.stream.cursor e.words)
    (hends : Ends (s.kindAt (s.stream.cursor + e.words.length)) 0)
    (hk : Continues (s.kindAt (s.stream.cursor + e.words.length)))
    (hn : 4 * e.words.length + 1 ≤ n) :
    ∃ x t, run n (.expr 0) s = .ok (x, t) ∧ t.Denotes x e.tree ∧ t.errors = s.errors ∧
      t.stream.cursor = s.stream.cursor + e.words.length := by
  obtain ⟨x, t, hrun, hx⟩ := expression_runs e hfit hs hw hends hk hn
  exact ⟨x, t, hrun, hx.denotes, hx.errors, hx.cursor⟩

/-- `a * (b - c)` -/
def scaledDifference : Expression :=
  .binary ⟨.star, by decide⟩ (.ident (ascii "a"))
    (.binary ⟨.minus, by decide⟩ (.ident (ascii "b")) (.ident (ascii "c")))

def scaledLexemes : List Lexer.SpelledLexeme :=
  [⟨.identifier, ascii "a", ascii " "⟩, ⟨.star, ascii "*", ascii " "⟩, ⟨.l_paren, ascii "(", ascii " "⟩,
    ⟨.identifier, ascii "b", ascii "\n"⟩, ⟨.comment, ascii "// less", ascii "\n"⟩,
    ⟨.minus, ascii "-", ascii " "⟩, ⟨.identifier, ascii "c", ascii " "⟩, ⟨.r_paren, ascii ")", ascii " "⟩,
    ⟨.semi, ascii ";", ascii " "⟩]

def scaledState : PState :=
  initialState (.ofItems (Lexer.lexAll (Lexer.concatenation scaledLexemes))
    (Lexer.concatenation scaledLexemes)) .new

theorem scaledDifference_read_back : ∃ x t, run 40 (.expr 0) scaledState = .ok (x, t) ∧
    t.Denotes x scaledDifference.tree ∧ t.errors = scaledState.errors ∧
      t.stream.cursor = scaledState.stream.cursor + scaledDifference.words.length := by
  have hvalid : scaledState.Valid := .initial _ _ _ _
  refine expression_read_back scaledDifference ⟨trivial, trivial, trivial⟩ 40 scaledState
    hvalid.ordered ?_ ?_ ?_ (by decide)
  · refine ⟨⟨rfl, ?_⟩, ⟨rfl, ?_⟩, ⟨rfl, ?_⟩, ⟨rfl, ?_⟩, ⟨rfl, ?_⟩, ⟨rfl, ?_⟩, ⟨rfl, ?_⟩, trivial⟩ <;>
      rintro text ⟨⟩ <;> rfl
  · exact ⟨rfl, by decide⟩
  · exact ⟨by decide, by decide⟩

/-! ### From a text -/

/-- The lexemes spell the words, with comments between them. -/
def Spells (ls : List Lexer.SpelledLexeme) (ws : List Word) : Prop :=
  List.Forall₂ (fun l w => l.kind = w.kind ∧ ∀ text, w.text = some text → l.text = text)
    (ls.filter fun l => l.kind ≠ .comment) ws

/-- The token is the lexeme. -/
def IsToken (source : Bytes) (t : Token) (l : Lexer.SpelledLexeme) : Prop :=
  t.tokenKind = l.kind ∧ Eter.textOf source t.tokenSpan = l.text

theorem tokensFrom_isToken {source : Bytes} {start : ℕ} {ls : List Lexer.SpelledLexeme}
    (h : source.drop start = Lexer.concatenation ls) (hsize : source.length < 2 ^ 32) :
    List.Forall₂ (IsToken source) (Lexer.tokensFrom start ls) ls := by
  induction ls generalizing start with
  | nil => exact .nil
  | cons l ls ih =>
    have hcons : source.drop start = l.text ++ (l.separator ++ Lexer.concatenation ls) := by
      rw [h, Lexer.concatenation, List.flatMap_cons, List.append_assoc]
      rfl
    have hlen := congrArg List.length hcons
    rw [List.length_drop, List.length_append] at hlen
    refine .cons ⟨rfl, ?_⟩ (ih ?_)
    · unfold Eter.textOf substr
      rw [Span.length_add (by omega), hcons, List.take_left]
    · rw [← List.drop_drop, hcons, ← List.append_assoc, ← List.length_append, List.drop_left]

theorem shows_of_isToken {front body back : List Lexer.SpelledLexeme} {ts rest : List Token}
    (htokens : st.tokens = ts ++ rest)
    (h : List.Forall₂ (IsToken st.source) ts (front ++ body ++ back))
    (hws : List.Forall₂ (fun l (w : Word) => l.kind = w.kind ∧
      ∀ text, w.text = some text → l.text = text) body ws) : st.Shows front.length ws := by
  induction hws generalizing front with
  | nil => trivial
  | @cons l w body ws hl hws ih =>
    have hrest : List.Forall₂ (IsToken st.source) ts ((front ++ [l]) ++ body ++ back) := by
      simpa using h
    have hnext := ih hrest
    rw [List.length_append] at hnext
    have hlt : front.length < ts.length := by
      rw [h.length_eq]
      simp
    have hat : (front ++ l :: body ++ back)[front.length]? = some l := by simp
    obtain ⟨l', hl', htok⟩ := forall₂_getElem? h (List.getElem?_eq_getElem hlt)
    obtain rfl : l = l' := Option.some.inj (hat.symm.trans hl')
    have hget : st.tokenAt front.length = ts[front.length] := by
      have hat' : st.tokens[front.length + 0]? = some ts[front.length] := by
        rw [Nat.add_zero, htokens, List.getElem?_append_left hlt, List.getElem?_eq_getElem hlt]
      unfold TokenStream.tokenAt TokenStream.peekToken
      rw [hat']
    refine ⟨⟨?_, fun text htext => ?_⟩, hnext⟩
    · rw [← hl.1, ← htok.1, ← hget, tokenAt_kind]
    · rw [← hl.2 text htext, ← htok.2, ← hget]
      rfl

/-- The lexer's tokens of a text show what its lexemes spell. -/
theorem shows_of_spells {front body back : List Lexer.SpelledLexeme}
    (hls : ∀ l ∈ front ++ body ++ back, l.WellSpelled)
    (hsource : st.source = Lexer.concatenation (front ++ body ++ back))
    (htokens : st.tokens = TokenStream.tokensOf (Lexer.lexAll st.source))
    (hsize : st.source.length < 2 ^ 32) (hws : Spells body ws) :
    st.Shows (front.filter fun l => l.kind ≠ .comment).length ws := by
  have hstart : st.source.drop 0 = Lexer.concatenation (front ++ body ++ back) := by
    rw [List.drop_zero, hsource]
  have hall := tokensFrom_isToken hstart hsize
  have hfilter : List.Forall₂ (IsToken st.source)
      ((Lexer.tokensFrom 0 (front ++ body ++ back)).filter fun t => t.tokenKind ≠ .comment)
      ((front ++ body ++ back).filter fun l => l.kind ≠ .comment) :=
    List.rel_filter (fun t l htl => by simp [htl.1]) hall
  rw [List.filter_append, List.filter_append] at hfilter
  rw [hsource, Lexer.lexAll_eq, Lexer.lexRange_concatenation hls, Lexer.tokensOf_tokens] at htokens
  exact shows_of_isToken htokens hfilter hws

/-- Anywhere in a text, however it is laid out, an expression in front of a token that ends it is
lexed and parsed back with nothing reported. -/
theorem expression_text_read_back (e : Expression) (hfit : e.Fits) (k : Token.Kind) (n : ℕ)
    (front body back : List Lexer.SpelledLexeme)
    (hls : ∀ l ∈ front ++ body ++ back, l.WellSpelled) (hspells : Spells body (e.words ++ [sign k]))
    (hends : Ends k 0) (hk : Continues k) (s : PState) (hs : s.Ordered)
    (hsource : s.stream.source = Lexer.concatenation (front ++ body ++ back))
    (htokens : s.stream.tokens = TokenStream.tokensOf (Lexer.lexAll s.stream.source))
    (hsize : s.stream.source.length < 2 ^ 32)
    (hcursor : s.stream.cursor = (front.filter fun l => l.kind ≠ .comment).length)
    (hn : 4 * e.words.length + 1 ≤ n) :
    ∃ x t, run n (.expr 0) s = .ok (x, t) ∧ t.Denotes x e.tree ∧ t.errors = s.errors ∧
      t.stream.peek 0 = k := by
  obtain ⟨hw, hend, -⟩ := TokenStream.shows_append.mp (shows_of_spells hls hsource htokens hsize hspells)
  rw [← hcursor] at hw hend
  have hend : s.kindAt (s.stream.cursor + e.words.length) = k := hend.1
  obtain ⟨x, t, hrun, hx⟩ := expression_runs e hfit hs hw (by rwa [hend]) (by rwa [hend]) hn
  exact ⟨x, t, hrun, hx.denotes, hx.errors, hx.kind.trans hend⟩

theorem scaledLexemes_read_back : ∃ x t, run 40 (.expr 0) scaledState = .ok (x, t) ∧
    t.Denotes x scaledDifference.tree ∧ t.errors = scaledState.errors ∧ t.stream.peek 0 = .semi := by
  have hvalid : scaledState.Valid := .initial _ _ _ _
  refine expression_text_read_back scaledDifference ⟨trivial, trivial, trivial⟩ .semi 40 []
    scaledLexemes [] ?_ ?_ ⟨rfl, by decide⟩ ⟨by decide, by decide⟩ scaledState hvalid.ordered ?_ rfl
    (by decide) rfl (by decide)
  · intro l hl
    simp only [scaledLexemes, List.nil_append, List.append_nil, List.mem_cons, List.not_mem_nil,
      or_false] at hl
    rcases hl with rfl | rfl | rfl | rfl | rfl | rfl | rfl | rfl | rfl
    case inr.inr.inr.inr.inl =>
      refine ⟨by decide, by decide, List.all_eq_true.mp (by decide), ?_⟩
      rintro - d hd
      obtain rfl : ch '\n' = d := Option.some.inj hd
      decide
    all_goals exact ⟨by decide, by decide, List.all_eq_true.mp (by decide), by decide⟩
  · refine .cons ⟨rfl, ?_⟩ (.cons ⟨rfl, ?_⟩ (.cons ⟨rfl, ?_⟩ (.cons ⟨rfl, ?_⟩ (.cons ⟨rfl, ?_⟩
      (.cons ⟨rfl, ?_⟩ (.cons ⟨rfl, ?_⟩ (.cons ⟨rfl, ?_⟩ .nil))))))) <;> rintro text ⟨⟩ <;> rfl
  · rw [List.nil_append, List.append_nil]
    rfl

end Eter.Parser
