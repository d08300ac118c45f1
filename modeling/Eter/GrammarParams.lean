import Eter.GrammarStmts

/-!
# Parameters, fields, variants, and functions are read
-/

namespace Eter.Parser
open Stateful NodePool

variable {α : Type} {st : TokenStream} {lit b : Bool} {s t : PState}
  {n flags u i j k l m o q : ℕ} {names : List (InternedStr × Bytes)} {xs : List NodeIndex}
  {tr ps body : SyntaxTree} {ts gs rs docs : List SyntaxTree} {r : Regime}
  {Q : α → PState → Prop} {p : ℕ → List NodeIndex → ParserM NodeIndex}

def paramParser (n : ℕ) : ParserM NodeIndex := parseParam (run n)

def paramsParser (n : ℕ) : ParserM NodeIndex := parseParamList n (run n)

def structFieldParser (n : ℕ) : ParserM NodeIndex := parseStructField (run n)

def variantParser (n : ℕ) : ParserM NodeIndex := parseEnumVariant n (run n)

def fnParser (flags : ℕ) (expectBody : Bool) (n : ℕ) (docs : List NodeIndex) : ParserM NodeIndex :=
  parseFnDecl n (run n) docs flags expectBody

/-! ### Generic parameters -/

/-- The lists of generic parameters go on up to `>`, which other lists may contain. -/
structure GenericParamAt (st : TokenStream) (lit : Bool) (i j : ℕ) (tr : SyntaxTree) : Prop
    extends Element st lit genericParamParser 1 i j tr where
  name : st.kindAt i = .identifier

/-- Nothing, or a list of generic parameters. -/
def GenericsAt (st : TokenStream) (lit : Bool) (j k : ℕ) (gs : List SyntaxTree) : Prop :=
  (st.kindAt j ≠ .less ∧ k = j ∧ gs = []) ∨
    ∃ l ts, st.kindAt j = .less ∧ CommasOf st (GenericParamAt st lit) (j + 1) l ts ∧ j + 1 ≤ l ∧
      st.kindAt l = .greater ∧ k = l + 1 ∧ gs = [.node .GenericParamList 0 none 0 ts]

theorem GenericsAt.le (h : GenericsAt st lit j k gs) : j ≤ k := by
  rcases h with ⟨-, rfl, -⟩ | ⟨l, ts, -, -, hle, -, rfl, -⟩ <;> omega

theorem reads_genericParams (hopen : st.kindAt i = .less)
    (hlist : CommasOf st (GenericParamAt st lit) (i + 1) j ts) (hle : i + 1 ≤ j)
    (hclose : st.kindAt j = .greater) :
    Runs st lit (fun n => parseGenericParams n (run n)) 0 i (j + 1)
      (.node .GenericParamList 0 none 0 ts) := by
  intro n hn s hs
  show Yields (parseGenericParams n (run n)) _ s
  unfold parseGenericParams
  refine hs.gathered.unless_check hopen (hs.gathered.advance hopen (by decide) fun t₁ h₁ => ?_)
  unfold parseGenericList
  rw [bind_assoc]
  have hfirst : FirstOf st (GenericParamAt st lit) (fun w => decide (w = .greater)) (i + 1) j ts :=
    hlist.first (fun _ _ _ h => by rw [h.name]; rfl) (by rw [hclose]; rfl) (by rw [hclose]; decide)
  rcases hfirst with ⟨rfl, rfl⟩ | ⟨k, tr, ts', rfl, helem, hmore⟩
  · refine h₁.check_hit hclose ?_
    rw [if_pos rfl, pure_bind]
    exact h₁.expect hclose (by decide) fun t₂ h₂ => h₂.alloc (.plain _)
  · replace hmore := hmore.imp fun _ _ _ h => h.toElement
    have hlt := helem.lt
    have hlen := hmore.length_le
    refine h₁.check_miss (by rw [helem.name]; decide) ?_
    rw [if_neg Bool.false_ne_true, bind_assoc]
    refine h₁.call helem.toElement rfl (by omega) fun x t₂ h₂ => ?_
    refine h₂.parseMore hmore rfl (by omega) (by omega) fun ys t₃ h₃ => ?_
    exact h₃.expect hclose (by decide) fun t₄ h₄ => h₄.alloc (.plain _)

theorem pushed_of_has {x : NodeIndex} (h : t.Has x) : pushed x = [x] := by
  cases x with
  | none =>
    obtain ⟨span, hspan⟩ := h
    cases hspan
  | some x => rfl

theorem Gathered.generics {f : NodeIndex → ParserM α} (h : Gathered st lit s j names xs ts t)
    (hg : GenericsAt st lit j k gs) (hn : 4 * (k - j) ≤ n)
    (hf : ∀ x u, Gathered st lit s k names (xs ++ pushed x) (ts ++ gs) u → Yields (f x) Q u) :
    Yields (parseGenericParams n (run n) >>= f) Q t := by
  rcases hg with ⟨hk, rfl, rfl⟩ | ⟨l, ts', hopen, hlist, hle, hclose, rfl, rfl⟩
  · unfold parseGenericParams
    rw [bind_assoc]
    refine h.check_miss hk ?_
    rw [Bool.not_false, if_pos rfl, pure_bind]
    exact hf _ t (by simpa [pushed] using h)
  · refine (reads_genericParams hopen hlist hle hclose n (by omega) t h.before).bind fun x u hx => ?_
    refine hf x u ?_
    rw [pushed_of_has hx.has]
    exact h.concat hx

/-! ### Parameters -/

theorem Gathered.getText {id : InternedStr} {text : Bytes} {f : Bytes → ParserM α}
    (h : Gathered st lit s j names xs ts t) (hmem : (id, text) ∈ names) (hf : Yields (f text) Q t) :
    Yields (Parser.getText id >>= f) Q t := by
  refine Yields.read ?_ hf
  unfold Parser.getText
  rw [h.names _ hmem]

/-- What a parameter starts with is never behind a gap. -/
theorem Gathered.atGap {f : Bool → ParserM α} (h : Gathered st lit s j names xs ts t)
    (hstarts : startsParam (st.kindAt j) = true) (hf : Yields (f false) Q t) :
    Yields (Parser.atGap >>= f) Q t := by
  unfold Parser.atGap
  rw [bind_assoc]
  refine h.peekToken ?_
  rw [tokenAt_kind, hstarts, bind_assoc]
  exact Yields.read rfl hf

theorem Marks.startsParam (h : Marks st i j r) (hname : st.kindAt j = .identifier) :
    startsParam (st.kindAt i) = true := by
  cases h with
  | unmarked => rw [hname]; rfl
  | isImm h => rw [h]; rfl
  | isMut h => rw [h]; rfl
  | isProj h => rw [h]; rfl

/-- Up to the type, which a rest of the production reads. -/
theorem param_runs (hs : Before st lit i s) (hregime : Marks st i j r)
    (hname : st.kindAt j = .identifier)
    (htype : ∀ name t, Gathered st lit s (j + 1) [(name, st.textAt j)] [] [] t →
      Yields (parseParamType (run n) name)
        (fun x u => Gathered st lit s k [(name, st.textAt j)] [x] [tr] u) t) :
    Yields (parseParam (run n))
      (s.Parsed k (SyntaxTree.node .Param 0 (some (st.textAt j)) r.value [tr]).stored) s := by
  unfold parseParam
  refine hs.gathered.atGap (hregime.startsParam hname) (hs.gathered.peekToken ?_)
  refine hs.gathered.regime hregime hname fun t₁ h₁ => h₁.expectName hname fun name t₂ h₂ => ?_
  refine (htype name t₂ h₂).bind fun x t₃ h₃ => ?_
  unfold markGap
  rw [if_neg Bool.false_ne_true, pure_bind]
  exact Yields.read rfl (h₃.alloc (.packed h₃.named))

theorem Gathered.isSelfParam {id : InternedStr} {text : Bytes} {f : Bool → ParserM α}
    (h : Gathered st lit s j names xs ts t) (hmem : (id, text) ∈ names)
    (hf : Yields (f (text == ascii "self" && !decide (st.kindAt j = .colon) &&
      (decide (st.kindAt j = .r_paren) || decide (st.kindAt j = .comma)))) Q t) :
    Yields (Parser.isSelfParam id >>= f) Q t := by
  unfold Parser.isSelfParam
  rw [bind_assoc]
  refine h.getText hmem ?_
  rw [bind_assoc]
  refine h.check ?_
  rw [bind_assoc]
  refine h.check ?_
  rw [bind_assoc]
  exact h.check hf

theorem reads_param (hregime : Marks st i j r) (hname : st.kindAt j = .identifier)
    (hcolon : st.kindAt (j + 1) = .colon) (htype : Element st lit typeParser 1 (j + 2) k tr) :
    Runs st lit paramParser 1 i k (.node .Param 0 (some (st.textAt j)) r.value [tr]) := by
  intro n hn s hs
  have hle := hregime.le
  have hlt := htype.lt
  refine param_runs hs hregime hname fun name t₁ h₁ => ?_
  unfold parseParamType
  refine h₁.isSelfParam (List.mem_singleton_self _) ?_
  rw [decide_eq_true hcolon, Bool.not_true, Bool.and_false, Bool.false_and, if_neg Bool.false_ne_true]
  refine h₁.expect hcolon (by decide) fun t₂ h₂ => ?_
  exact (htype.runs n (by omega) t₂ h₂.before).mono fun x u hx => h₂.concat hx

theorem reads_selfParam (hregime : Marks st i j r) (hname : st.kindAt j = .identifier)
    (hself : st.textAt j = ascii "self")
    (hend : st.kindAt (j + 1) = .r_paren ∨ st.kindAt (j + 1) = .comma) :
    Runs st lit paramParser 1 i (j + 1) (.node .Param 0 (some (st.textAt j)) r.value
      [.node .NamedType 0 (some (ascii "Self")) 0 []]) := by
  intro n hn s hs
  refine param_runs hs hregime hname fun name t₁ h₁ => ?_
  unfold parseParamType
  refine h₁.isSelfParam (List.mem_singleton_self _) ?_
  rw [if_pos (by rcases hend with hk | hk <;> simp [hself, hk])]
  unfold synthesiseSelf
  refine h₁.previous (by rw [hname]; decide) (h₁.before.gathered.intern _ fun id t₂ h₂ => ?_)
  have hleaf : Yields (allocLeaf .NamedType (st.tokenAt j).tokenSpan id)
      (t₁.Parsed (j + 1) (SyntaxTree.node .NamedType 0 (some (ascii "Self")) 0 []).stored) t₂ :=
    h₂.leaf (.name h₂.named)
  exact hleaf.mono fun x u hx => h₁.concat hx

theorem reads_params (hopen : st.kindAt i = .l_paren)
    (hlist : ListOf st (Element st lit paramParser 1) (i + 1) j ts) (hle : i + 1 ≤ j)
    (hclose : st.kindAt j = .r_paren) :
    Runs st lit paramsParser 0 i (j + 1) (.node .ParamList 0 none 0 ts) := by
  intro n hn s hs
  show Yields (parseParamList n (run n)) _ s
  unfold parseParamList
  refine hs.gathered.expect hopen (by decide) fun t₁ h₁ => ?_
  unfold parseParams
  rw [bind_assoc]
  rcases hlist.first (by rw [hclose]; decide) with ⟨rfl, rfl⟩ | ⟨k, tr, ts', rfl, helem, hmore⟩
  · refine h₁.check_hit hclose ?_
    rw [if_pos rfl, pure_bind]
    exact h₁.expect hclose (by decide) fun t₂ h₂ => h₂.alloc (.plain _)
  · have hlt := helem.lt
    have hlen := hmore.length_le
    refine h₁.check_miss (ne_of_starts helem.starts rfl) ?_
    rw [if_neg Bool.false_ne_true, bind_assoc]
    refine h₁.call helem rfl (by omega) fun x t₂ h₂ => ?_
    refine h₂.parseMore hmore rfl (by omega) (by omega) fun ys t₃ h₃ => ?_
    exact h₃.expect hclose (by decide) fun t₄ h₄ => h₄.alloc (.plain _)

/-! ### Fields and variants -/

theorem reads_structField (hregime : Marks st i j r) (hname : st.kindAt j = .identifier)
    (hcolon : st.kindAt (j + 1) = .colon) (htype : Element st lit typeParser 1 (j + 2) k tr) :
    Runs st lit structFieldParser 1 i k (.node .StructField 0 (some (st.textAt j)) r.value [tr]) := by
  intro n hn s hs
  have hle := hregime.le
  have hlt := htype.lt
  show Yields (parseStructField (run n)) _ s
  unfold parseStructField
  refine hs.gathered.peekToken (hs.gathered.regime hregime hname fun t₁ h₁ => ?_)
  refine h₁.unless_check hname (h₁.advance hname (by decide) fun t₂ h₂ => ?_)
  refine h₂.internText _ fun name t₃ h₃ => ?_
  unfold parseStructField.fieldColon
  rw [bind_assoc]
  refine h₃.consume_hit hcolon (by decide) fun t₄ h₄ => ?_
  rw [if_pos rfl, pure_bind, if_pos rfl]
  refine h₄.call htype rfl (by omega) fun x t₅ h₅ => Yields.read rfl ?_
  exact h₅.alloc (.packed h₅.named)

/-- Behind the name of a variant. -/
theorem Before.variant {Q : NodeIndex → PState → Prop} (hs : Before st lit i s)
    (hname : st.kindAt i = .identifier)
    (h : ∀ name t, Gathered st lit s (i + 1) [(name, st.textAt i)] [] [] t → Yields (do
      let startPos := (st.tokenAt i).tokenSpan.start
      if ← consume .l_paren then parseTupleVariant n (run n) startPos name
      else if ← consume .l_brace then parseStructVariant n (run n) startPos name
      else if ← consume .eq then
        let discriminant ← parseConstExpr (run n)
        alloc .EnumVariantUnit ⟨startPos, (← previous).tokenSpan.end⟩ [discriminant]
          (makePayload name .None) 0
      else
        allocLeaf .EnumVariantUnit ⟨startPos, (← previous).tokenSpan.end⟩ (makePayload name .None)) Q t) :
    Yields (parseEnumVariant n (run n)) Q s := by
  unfold parseEnumVariant
  refine hs.gathered.peekToken (hs.gathered.unless_check hname ?_)
  refine hs.gathered.advance hname (by decide) fun t₁ h₁ => ?_
  exact h₁.internText _ fun name t₂ h₂ => h name t₂ h₂

theorem reads_unitVariant (hname : st.kindAt i = .identifier)
    (hend : st.kindAt (i + 1) ≠ .l_paren ∧ st.kindAt (i + 1) ≠ .l_brace ∧ st.kindAt (i + 1) ≠ .eq) :
    Runs st lit variantParser 1 i (i + 1)
      (.node .EnumVariantUnit 0 (some (st.textAt i)) Regime.None.value []) := by
  intro n hn s hs
  refine hs.variant hname fun name t ht => ?_
  refine ht.consume_else hend.1 (ht.consume_else hend.2.1 (ht.consume_else hend.2.2 ?_))
  exact Yields.read rfl (ht.leaf (.packed ht.named))

theorem reads_valuedVariant (hname : st.kindAt i = .identifier) (heq : st.kindAt (i + 1) = .eq)
    (hvalue : Element st lit exprParser 1 (i + 2) j tr) :
    Runs st lit variantParser 1 i j
      (.node .EnumVariantUnit 0 (some (st.textAt i)) Regime.None.value [tr]) := by
  intro n hn s hs
  have hlt := hvalue.lt
  refine hs.variant hname fun name t ht => ?_
  refine ht.consume_else (by rw [heq]; decide) (ht.consume_else (by rw [heq]; decide) ?_)
  refine ht.consume_then heq (by decide) fun t₁ h₁ => ?_
  refine h₁.call hvalue rfl (by omega) fun x t₂ h₂ => Yields.read rfl ?_
  exact h₂.alloc (.packed h₂.named)

theorem reads_tupleVariant (hname : st.kindAt i = .identifier) (hopen : st.kindAt (i + 1) = .l_paren)
    (htypes : CommasOf st (Element st lit typeParser 1) (i + 2) j ts) (hle : i + 2 ≤ j)
    (hclose : st.kindAt j = .r_paren) :
    Runs st lit variantParser 1 i (j + 1)
      (.node .EnumVariantTuple 0 (some (st.textAt i)) Regime.None.value ts) := by
  intro n hn s hs
  refine hs.variant hname fun name t ht => ht.consume_then hopen (by decide) fun t₁ h₁ => ?_
  unfold parseTupleVariant
  refine h₁.parseCommaSeparated htypes rfl hclose rfl (by decide) (by omega) (by omega)
    fun ys t₂ h₂ => ?_
  exact h₂.expect hclose (by decide) fun t₃ h₃ => h₃.alloc (.packed h₃.named)

theorem reads_structVariant (hname : st.kindAt i = .identifier) (hopen : st.kindAt (i + 1) = .l_brace)
    (hfields : CommasOf st (Element st lit structFieldParser 1) (i + 2) j ts) (hle : i + 2 ≤ j)
    (hclose : st.kindAt j = .r_brace) :
    Runs st lit variantParser 1 i (j + 1)
      (.node .EnumVariantStruct 0 (some (st.textAt i)) Regime.None.value ts) := by
  intro n hn s hs
  refine hs.variant hname fun name t ht => ht.consume_else (by rw [hopen]; decide) ?_
  refine ht.consume_then hopen (by decide) fun t₁ h₁ => ?_
  unfold parseStructVariant
  refine h₁.parseCommaSeparated hfields rfl hclose rfl (by decide) (by omega) (by omega)
    fun ys t₂ h₂ => ?_
  exact h₂.expect hclose (by decide) fun t₃ h₃ => h₃.alloc (.packed h₃.named)

/-! ### Functions -/

/-- With docs that stand for the trees, the production reads tokens `i` to `j` as the tree. -/
def RunsBehind (st : TokenStream) (lit : Bool) (p : ℕ → List NodeIndex → ParserM NodeIndex)
    (docs : List SyntaxTree) (i j : ℕ) (tr : SyntaxTree) : Prop :=
  ∀ n ≥ 4 * (j - i), ∀ s names xs t, Gathered st lit s i names xs docs t →
    Yields (p n xs) (s.Parsed j tr.stored) t

/-- What ends a function: a block, or a semicolon and no node. -/
def BodyAt (st : TokenStream) (lit b : Bool) (i j : ℕ) (body : SyntaxTree) : Prop :=
  (b = true ∧ Element st lit blockParser 0 i j body) ∨
    (b = false ∧ st.kindAt i = .semi ∧ j = i + 1 ∧ body = .missing)

theorem BodyAt.lt (h : BodyAt st lit b i j body) : i < j := by
  rcases h with ⟨-, h⟩ | ⟨-, -, rfl, -⟩
  · exact h.lt
  · omega

theorem Gathered.fnBody {f : NodeIndex → ParserM α} (h : Gathered st lit s j names xs ts t)
    (hb : BodyAt st lit b j k body) (hn : 4 * (k - j) ≤ n)
    (hf : ∀ x u, Gathered st lit s k names (xs ++ [x]) (ts ++ [body]) u → Yields (f x) Q u) :
    Yields (parseFnBody (run n) b >>= f) Q t := by
  unfold parseFnBody
  rcases hb with ⟨rfl, hbody⟩ | ⟨rfl, hsemi, rfl, rfl⟩
  · rw [if_pos rfl]
    exact h.call hbody rfl (by omega) hf
  · rw [if_neg Bool.false_ne_true, bind_assoc]
    refine h.expect hsemi (by decide) fun u hu => ?_
    rw [pure_bind]
    exact hf _ u hu.concat_missing

theorem Gathered.returnType {f : List NodeIndex → ParserM α} (h : Gathered st lit s j names xs ts t)
    (ha : AfterOf st .colon (Element st lit typeParser 1) j k rs) (harrow : st.kindAt k ≠ .arrow)
    (hn : 4 * (k - j) ≤ n)
    (hf : ∀ ys u, Gathered st lit s k names (xs ++ ys) (ts ++ rs) u → Yields (f ys) Q u) :
    Yields (parseReturnType (run n) >>= f) Q t := by
  unfold parseReturnType
  rw [bind_assoc]
  rcases ha with ⟨hk, rfl, rfl⟩ | ⟨tr, hk, htr, rfl⟩
  · refine h.consume_miss hk ?_
    rw [if_neg Bool.false_ne_true, bind_assoc]
    refine h.check_miss harrow ?_
    rw [if_neg Bool.false_ne_true, pure_bind]
    exact hf [] t (by simpa using h)
  · have hlt := htr.lt
    refine h.consume_hit hk (by decide) fun u hu => ?_
    rw [if_pos rfl, bind_assoc]
    exact hu.call htr rfl (by omega) fun x v hv => hf [x] v hv

theorem Gathered.consumeUnsafe {f : ℕ → ParserM α} (h : Gathered st lit s i names xs ts t)
    (hflag : Flagged st .kw_unsafe_ UnsafeFlag i j u) (hword : st.kindAt j ≠ .kw_unsafe_)
    (hf : ∀ t', Gathered st lit s j names xs ts t' → Yields (f (flags ||| u)) Q t') :
    Yields (Parser.consumeUnsafe flags >>= f) Q t := by
  unfold Parser.consumeUnsafe
  rw [bind_assoc]
  cases hflag with
  | absent =>
    refine h.consume_miss hword ?_
    rw [if_neg Bool.false_ne_true, pure_bind]
    simpa using hf t h
  | present hk =>
    refine h.consume_hit hk (by decide) fun v hv => ?_
    rw [if_pos rfl, pure_bind]
    exact hf v hv

theorem reads_fn (hflag : Flagged st .kw_unsafe_ UnsafeFlag i j u) (hword : st.kindAt j = .kw_fn)
    (hregime : Marks st (j + 1) k r) (hname : st.kindAt k = .identifier)
    (hgenerics : GenericsAt st lit (k + 1) l gs) (hparams : Element st lit paramsParser 0 l m ps)
    (hreturn : AfterOf st .colon (Element st lit typeParser 1) m o rs)
    (hbody : BodyAt st lit b o q body) (harrow : st.kindAt o ≠ .arrow) :
    RunsBehind st lit (fnParser flags b) docs i q (.node .FnDecl (flags ||| u) (some (st.textAt k))
      r.value (docs ++ gs ++ [ps] ++ rs ++ [body])) := by
  intro n hn s names xs t ht
  have hle₁ := hflag.le
  have hle₂ := hregime.le
  have hle₃ := hgenerics.le
  have hlt₁ := hparams.lt
  have hle₄ := hreturn.le
  have hlt₂ := hbody.lt
  show Yields (parseFnDecl n (run n) xs flags b) _ t
  unfold parseFnDecl
  refine ht.peekToken (ht.consumeUnsafe hflag (by rw [hword]; decide) fun t₁ h₁ => ?_)
  refine h₁.expect hword (by decide) fun t₂ h₂ => ?_
  unfold parseFnRest
  refine h₂.regime hregime hname fun t₃ h₃ => h₃.expectName hname fun name t₄ h₄ => ?_
  refine h₄.generics hgenerics (by omega) fun x t₅ h₅ => ?_
  refine h₅.call hparams rfl (by omega) fun y t₆ h₆ => ?_
  refine h₆.returnType hreturn harrow (by omega) fun ys t₇ h₇ => ?_
  refine h₇.fnBody hbody (by omega) fun z t₈ h₈ => Yields.read rfl ?_
  exact h₈.alloc (.packed h₈.named)

end Eter.Parser
