import Eter.GrammarLists

/-!
# Types, patterns, and generic parameters are read
-/

namespace Eter.Parser
open Stateful NodePool

variable {st : TokenStream} {lit : Bool} {n i j k : ℕ} {elem size tr : SyntaxTree}
  {ts : List SyntaxTree}

def typeParser (n : ℕ) : ParserM NodeIndex := run n .type

def patParser (n : ℕ) : ParserM NodeIndex := run n .pat

def exprParser (n : ℕ) : ParserM NodeIndex := run n (.expr 0)

/-! ### Types -/

theorem reads_namedType (hname : st.kindAt i = .identifier ∨ st.kindAt i = .kw_Self)
    (hpath : Segments st (i + 1) j) (hend : st.kindAt j ≠ .colon_colon) :
    Runs st lit typeParser 1 i j (.node .NamedType 0 (some (st.textFrom i j)) 0 []) := by
  intro n hn s hs
  have hle := hpath.le
  obtain ⟨n, rfl⟩ : ∃ n', n = n' + 1 := ⟨n - 1, by omega⟩
  have ht := hs.gathered
  have hkinds : ∀ w, w ≠ .identifier → w ≠ .kw_Self → st.kindAt i ≠ w := by
    rintro w hw hw' rfl
    rcases hname with hname | hname
    · exact hw hname
    · exact hw' hname
  show Yields (parseType n (run n)) _ s
  unfold parseType
  refine ht.check_else (hkinds _ (by decide) (by decide)) ?_
  refine ht.check_else (hkinds _ (by decide) (by decide)) ?_
  refine ht.check_else (hkinds _ (by decide) (by decide)) ?_
  unfold parseNamedType
  refine ht.check (ht.check ?_)
  rw [if_neg (by rcases hname with hname | hname <;> simp [hname])]
  refine ht.advance rfl (hkinds _ (by decide) (by decide)) fun u hu => ?_
  refine hu.parsePathSegments hpath hend (by omega) fun v hv => ?_
  exact hv.internText _ fun id w hw => hw.leaf (.name hw.named)

theorem reads_arrayType (hopen : st.kindAt i = .l_square)
    (helem : Element st lit typeParser 1 (i + 1) j elem) (hsemi : st.kindAt j = .semi)
    (hsize : Element st lit exprParser 1 (j + 1) k size) (hclose : st.kindAt k = .r_square) :
    Runs st lit typeParser 1 i (k + 1) (.node .ArrayType 0 none 0 [elem, size]) := by
  intro n hn s hs
  have hlt := helem.lt
  have hlt' := hsize.lt
  obtain ⟨n, rfl⟩ : ∃ n', n = n' + 1 := ⟨n - 1, by omega⟩
  have ht := hs.gathered
  show Yields (parseType n (run n)) _ s
  unfold parseType
  refine ht.check_else (by rw [hopen]; decide) (ht.check_then hopen ?_)
  unfold parseArrayType
  refine ht.advance hopen (by decide) fun t₁ h₁ => ?_
  refine h₁.call helem rfl (by omega) fun x t₂ h₂ => ?_
  refine h₂.expect hsemi (by decide) fun t₃ h₃ => ?_
  refine h₃.call hsize rfl (by omega) fun y t₄ h₄ => ?_
  exact h₄.expect hclose (by decide) fun t₅ h₅ => h₅.alloc (.plain _)

theorem reads_tensorType (hword : st.kindAt i = .kw_tensor) (hopen : st.kindAt (i + 1) = .l_square)
    (helem : Element st lit typeParser 1 (i + 2) j elem) (hsemi : st.kindAt j = .semi)
    (hdims : CommasOf st (Element st lit exprParser 1) (j + 1) k ts) (hsome : ts ≠ [])
    (hle : j + 1 ≤ k) (hclose : st.kindAt k = .r_square) :
    Runs st lit typeParser 1 i (k + 1) (.node .TensorType 0 none 0 (elem :: ts)) := by
  intro n hn s hs
  have hlt := helem.lt
  obtain ⟨n, rfl⟩ : ∃ n', n = n' + 1 := ⟨n - 1, by omega⟩
  have ht := hs.gathered
  show Yields (parseType n (run n)) _ s
  unfold parseType
  refine ht.check_else (by rw [hword]; decide) (ht.check_else (by rw [hword]; decide)
    (ht.check_then hword ?_))
  unfold parseTensorType
  refine ht.advance hword (by decide) fun t₁ h₁ => ?_
  refine h₁.expect hopen (by decide) fun t₂ h₂ => ?_
  refine h₂.call helem rfl (by omega) fun x t₃ h₃ => ?_
  refine h₃.expect hsemi (by decide) fun t₄ h₄ => ?_
  refine h₄.parseCommaSeparated hdims rfl hclose rfl (by decide) (by omega) (by omega)
    fun ys t₅ h₅ => ?_
  refine Yields.bind (R := fun _ u => u = t₅) ?_ ?_
  · have hlen := h₅.length
    have hpos := List.length_pos_iff.mpr hsome
    simp only [List.nil_append, List.length_append, List.length_cons, List.length_nil] at hlen
    unfold requireDim
    rw [if_neg (by simp only [List.length_append, List.length_cons, decide_eq_true_eq]; omega)]
    exact Yields.pure rfl
  · rintro _ _ rfl
    exact h₅.expect hclose (by decide) fun t₆ h₆ => h₆.alloc (.plain _)

theorem reads_tupleType (hopen : st.kindAt i = .l_paren)
    (helems : CommasOf st (Element st lit typeParser 1) (i + 1) j ts) (hle : i + 1 ≤ j)
    (hclose : st.kindAt j = .r_paren) :
    Runs st lit typeParser 1 i (j + 1) (.node .TupleType 0 none 0 ts) := by
  intro n hn s hs
  obtain ⟨n, rfl⟩ : ∃ n', n = n' + 1 := ⟨n - 1, by omega⟩
  have ht := hs.gathered
  show Yields (parseType n (run n)) _ s
  unfold parseType
  refine ht.check_then hopen ?_
  unfold parseTupleType
  refine ht.advance hopen (by decide) fun t₁ h₁ => ?_
  refine h₁.parseCommaSeparated helems rfl hclose rfl (by decide) (by omega) (by omega)
    fun ys t₂ h₂ => ?_
  exact h₂.expect hclose (by decide) fun t₃ h₃ => h₃.alloc (.plain _)

/-! ### Patterns -/

def fieldPatParser (n : ℕ) : ParserM NodeIndex := parseFieldPat (run n)

/-- A pattern that starts with a name. -/
theorem Before.namePat {s : PState} (hs : Before st lit i s) (hname : st.kindAt i = .identifier)
    {Q : NodeIndex → PState → Prop} (h : Yields (parseNamePat n (run n) (st.tokenAt i)) Q s) :
    Yields (parsePat n (run n)) Q s := by
  unfold parsePat
  refine hs.gathered.peekToken ?_
  rwa [tokenAt_kind, if_pos hname]

theorem reads_wildcardPat (hname : st.kindAt i = .identifier) (htext : st.textAt i = ascii "_") :
    Runs st lit patParser 1 i (i + 1) (.node .WildcardPat 0 none 0 []) := by
  intro n hn s hs
  obtain ⟨n, rfl⟩ : ∃ n', n = n' + 1 := ⟨n - 1, by omega⟩
  have ht := hs.gathered
  refine hs.namePat (n := n) hname ?_
  unfold parseNamePat
  refine ht.text ?_
  rw [if_pos (show st.textOf _ = _ from htext)]
  exact ht.advance hname (by decide) fun t₁ h₁ => h₁.leaf (.plain _)

/-- Behind the path of a name that is no wildcard. -/
def restOfPat (n : ℕ) (rec : Rec) (name : InternedStr) (span : Span) : ParserM NodeIndex := do
  if ← check .l_paren then parseTuplePat n rec name span
  else if ← check .l_brace then parseStructPat n rec name span
  else allocLeaf .IdentPat span (makePayload name .None)

theorem Before.pathPat {s : PState} (hs : Before st lit i s) (hname : st.kindAt i = .identifier)
    (htext : st.textAt i ≠ ascii "_") (hpath : Segments st (i + 1) j)
    (hend : st.kindAt j ≠ .colon_colon) (hn : j - i ≤ n) {Q : NodeIndex → PState → Prop}
    (h : ∀ name t, Gathered st lit s j [(name, st.textFrom i j)] [] [] t →
      Yields (restOfPat n (run n) name
        ⟨(st.tokenAt i).tokenSpan.start, (st.tokenAt (j - 1)).tokenSpan.end⟩) Q t) :
    Yields (run (n + 1) .pat) Q s := by
  have hle := hpath.le
  have ht := hs.gathered
  refine hs.namePat (n := n) hname ?_
  unfold parseNamePat
  refine ht.text ?_
  rw [if_neg (show st.textOf _ ≠ _ from htext)]
  refine ht.advance hname (by decide) fun t₁ h₁ => ?_
  refine h₁.parsePathSegments hpath hend (by omega) fun t₂ h₂ => ?_
  exact h₂.internText _ fun name t₃ h₃ => h name t₃ h₃

theorem reads_namePat (hname : st.kindAt i = .identifier) (htext : st.textAt i ≠ ascii "_")
    (hpath : Segments st (i + 1) j)
    (hend : st.kindAt j ≠ .colon_colon ∧ st.kindAt j ≠ .l_paren ∧ st.kindAt j ≠ .l_brace) :
    Runs st lit patParser 1 i j
      (.node .IdentPat 0 (some (st.textFrom i j)) Regime.None.value []) := by
  intro n hn s hs
  have hle := hpath.le
  obtain ⟨n, rfl⟩ : ∃ n', n = n' + 1 := ⟨n - 1, by omega⟩
  refine hs.pathPat hname htext hpath hend.1 (by omega) fun name t ht => ?_
  unfold restOfPat
  exact ht.check_else hend.2.1 (ht.check_else hend.2.2 (ht.leaf (.packed ht.named)))

/-- The payload holds the name wherever the names are known. -/
def NamesAs (names : List (InternedStr × Bytes)) (id : InternedStr) (name : Option Bytes) : Prop :=
  ∀ strings : StringInterner, (∀ p ∈ names, strings.get? p.1 = some p.2) →
    Carries strings .name id name 0

theorem parseTuplePat_runs {s t : PState} {names : List (InternedStr × Bytes)} {id : InternedStr}
    {name : Option Bytes} {start : Span} (ht : Gathered st lit s i names [] [] t)
    (hname : NamesAs names id name) (hopen : st.kindAt i = .l_paren)
    (helems : CommasOf st (Element st lit patParser 1) (i + 1) j ts) (hle : i + 1 ≤ j)
    (hclose : st.kindAt j = .r_paren) (hn : 4 * (j - i) ≤ n) :
    Yields (parseTuplePat n (run n) id start)
      (s.Parsed (j + 1) (SyntaxTree.node .TuplePat 0 name 0 ts).stored) t := by
  unfold parseTuplePat
  refine ht.advance hopen (by decide) fun t₁ h₁ => ?_
  refine h₁.parseCommaSeparated helems rfl hclose rfl (by decide) (by omega) (by omega)
    fun ys t₂ h₂ => ?_
  exact h₂.expect hclose (by decide) fun t₃ h₃ => h₃.alloc (hname _ h₃.names)

theorem reads_variantPat (hname : st.kindAt i = .identifier) (htext : st.textAt i ≠ ascii "_")
    (hpath : Segments st (i + 1) j) (hopen : st.kindAt j = .l_paren)
    (helems : CommasOf st (Element st lit patParser 1) (j + 1) k ts) (hle : j + 1 ≤ k)
    (hclose : st.kindAt k = .r_paren) :
    Runs st lit patParser 1 i (k + 1) (.node .TuplePat 0 (some (st.textFrom i j)) 0 ts) := by
  intro n hn s hs
  have hpathLe := hpath.le
  obtain ⟨n, rfl⟩ : ∃ n', n = n' + 1 := ⟨n - 1, by omega⟩
  refine hs.pathPat hname htext hpath (by rw [hopen]; decide) (by omega) fun name t ht => ?_
  unfold restOfPat
  exact ht.check_then hopen
    (parseTuplePat_runs ht (fun _ h => .name (h _ (List.mem_singleton_self _))) hopen helems hle hclose (by omega))

theorem reads_tuplePat (hopen : st.kindAt i = .l_paren)
    (helems : CommasOf st (Element st lit patParser 1) (i + 1) j ts) (hle : i + 1 ≤ j)
    (hclose : st.kindAt j = .r_paren) :
    Runs st lit patParser 1 i (j + 1) (.node .TuplePat 0 none 0 ts) := by
  intro n hn s hs
  obtain ⟨n, rfl⟩ : ∃ n', n = n' + 1 := ⟨n - 1, by omega⟩
  have ht := hs.gathered
  show Yields (parsePat n (run n)) _ s
  unfold parsePat
  refine ht.peekToken ?_
  rw [tokenAt_kind, hopen, if_neg (by decide), if_pos rfl]
  exact parseTuplePat_runs ht (fun _ _ => .noName) hopen helems hle hclose (by omega)

theorem reads_structPat (hname : st.kindAt i = .identifier) (htext : st.textAt i ≠ ascii "_")
    (hpath : Segments st (i + 1) j) (hopen : st.kindAt j = .l_brace)
    (hfields : CommasOf st (Element st lit fieldPatParser 1) (j + 1) k ts) (hle : j + 1 ≤ k)
    (hclose : st.kindAt k = .r_brace) :
    Runs st lit patParser 1 i (k + 1) (.node .StructPat 0 (some (st.textFrom i j)) 0 ts) := by
  intro n hn s hs
  have hpathLe := hpath.le
  obtain ⟨n, rfl⟩ : ∃ n', n = n' + 1 := ⟨n - 1, by omega⟩
  refine hs.pathPat hname htext hpath (by rw [hopen]; decide) (by omega) fun name t ht => ?_
  unfold restOfPat
  refine ht.check_else (by rw [hopen]; decide) (ht.check_then hopen ?_)
  unfold parseStructPat
  refine ht.advance hopen (by decide) fun t₁ h₁ => ?_
  refine h₁.parseCommaSeparated hfields rfl hclose rfl (by decide) (by omega) (by omega)
    fun ys t₂ h₂ => ?_
  exact h₂.expect hclose (by decide) fun t₃ h₃ => h₃.alloc (.name h₃.named)

theorem reads_literalPat (hlit : isLiteral (st.kindAt i) = true) :
    Runs st lit patParser 1 i (i + 1) (.node .LiteralPat 0 (some (st.textAt i)) 0 []) := by
  intro n hn s hs
  obtain ⟨n, rfl⟩ : ∃ n', n = n' + 1 := ⟨n - 1, by omega⟩
  have ht := hs.gathered
  have hkinds : ∀ w, isLiteral w = false → st.kindAt i ≠ w := by
    rintro w hw rfl
    rw [hw] at hlit
    cases hlit
  show Yields (parsePat n (run n)) _ s
  unfold parsePat
  refine ht.peekToken ?_
  rw [tokenAt_kind, if_neg (hkinds _ rfl), if_neg (hkinds _ rfl), if_pos hlit]
  unfold parseLiteralPat
  refine ht.advance rfl (hkinds _ rfl) fun t₁ h₁ => ?_
  exact h₁.internText _ fun name t₂ h₂ => h₂.leaf (.name h₂.named)

theorem reads_fieldPat (hname : st.kindAt i = .identifier) (hend : st.kindAt (i + 1) ≠ .colon) :
    Runs st lit fieldPatParser 1 i (i + 1) (.node .FieldPat 0 (some (st.textAt i)) 0 []) := by
  intro n hn s hs
  have ht := hs.gathered
  show Yields (parseFieldPat (run n)) _ s
  unfold parseFieldPat
  refine ht.unless_check hname (ht.advance hname (by decide) fun t₁ h₁ => ?_)
  refine h₁.internText _ fun name t₂ h₂ => ?_
  exact h₂.consume_else hend (h₂.leaf (.name h₂.named))

theorem reads_boundFieldPat (hname : st.kindAt i = .identifier) (hcolon : st.kindAt (i + 1) = .colon)
    (hpat : Element st lit patParser 1 (i + 2) j tr) :
    Runs st lit fieldPatParser 1 i j (.node .FieldPat 0 (some (st.textAt i)) 0 [tr]) := by
  intro n hn s hs
  have hlt := hpat.lt
  have ht := hs.gathered
  show Yields (parseFieldPat (run n)) _ s
  unfold parseFieldPat
  refine ht.unless_check hname (ht.advance hname (by decide) fun t₁ h₁ => ?_)
  refine h₁.internText _ fun name t₂ h₂ => ?_
  refine h₂.consume_then hcolon (by decide) fun t₃ h₃ => ?_
  refine h₃.call hpat rfl (by omega) fun x t₄ h₄ => ?_
  refine h₄.spanOf (List.mem_singleton_self x) (by simpa using hpat.node) fun span => ?_
  exact h₄.alloc (.name h₄.named)

/-! ### Generic parameters -/

def genericParamParser (n : ℕ) : ParserM NodeIndex := parseGenericParam (run n)

theorem reads_genericParam (hname : st.kindAt i = .identifier) (hend : st.kindAt (i + 1) ≠ .colon) :
    Runs st lit genericParamParser 1 i (i + 1)
      (.node .GenericParam 0 (some (st.textAt i)) 0 [.missing]) := by
  intro n hn s hs
  have ht := hs.gathered
  show Yields (parseGenericParam (run n)) _ s
  unfold parseGenericParam
  refine ht.peekToken (ht.unless_check hname (ht.advance hname (by decide) fun t₁ h₁ => ?_))
  refine h₁.internText _ fun name t₂ h₂ => ?_
  unfold parseBound
  rw [bind_assoc]
  refine h₂.consume_miss hend ?_
  refine Yields.read rfl ?_
  exact h₂.concat_missing.alloc (.name h₂.named)

theorem reads_boundedParam (hname : st.kindAt i = .identifier) (hcolon : st.kindAt (i + 1) = .colon)
    (htype : Element st lit typeParser 1 (i + 2) j tr) :
    Runs st lit genericParamParser 1 i j (.node .GenericParam 0 (some (st.textAt i)) 0 [tr]) := by
  intro n hn s hs
  have hlt := htype.lt
  have ht := hs.gathered
  show Yields (parseGenericParam (run n)) _ s
  unfold parseGenericParam
  refine ht.peekToken (ht.unless_check hname (ht.advance hname (by decide) fun t₁ h₁ => ?_))
  refine h₁.internText _ fun name t₂ h₂ => ?_
  unfold parseBound
  rw [bind_assoc]
  refine h₂.consume_hit hcolon (by decide) fun t₃ h₃ => ?_
  rw [if_pos rfl]
  refine h₃.call htype rfl (by omega) fun x t₄ h₄ => Yields.read rfl ?_
  exact h₄.alloc (.name h₄.named)

end Eter.Parser
