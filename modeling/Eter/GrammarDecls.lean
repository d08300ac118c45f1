import Eter.GrammarParams

/-!
# Declarations, items, and files are read
-/

namespace Eter.Parser
open Stateful NodePool

variable {α : Type} {st : TokenStream} {lit b : Bool} {s t : PState}
  {n N flags u i j k l m q : ℕ} {names : List (InternedStr × Bytes)} {xs cs : List NodeIndex}
  {tr type value trait fn : SyntaxTree} {ts ts' gs docs : List SyntaxTree}
  {Q : α → PState → Prop}

def declParser (flags n : ℕ) (docs : List NodeIndex) : ParserM NodeIndex :=
  parseDecl n (run n) docs flags

def itemParser (n : ℕ) : ParserM NodeIndex := run n .topLevelDecl

/-! ### Functions among the declarations -/

theorem Gathered.peekNext {f : Token.Kind → ParserM α} (h : Gathered st lit s j names xs ts t)
    (hf : Yields (f (st.kindAt (j + 1))) Q t) : Yields (peekAt 1 >>= f) Q t := by
  refine Yields.read ?_ hf
  unfold peekAt TokenStream.kindAt TokenStream.peek
  rw [h.before.tokens, h.cursor, Nat.add_zero]

/-- At the top level `unsafe` goes with `fn`, and is consumed before the function. -/
structure FnAt (st : TokenStream) (lit b : Bool) (docs : List SyntaxTree) (flags i j : ℕ)
    (tr : SyntaxTree) : Prop where
  runs : RunsBehind st lit (fnParser flags b) docs i j tr
  starts : st.kindAt i = .kw_fn ∨ (st.kindAt i = .kw_unsafe_ ∧ st.kindAt (i + 1) = .kw_fn ∧
    RunsBehind st lit (fnParser (flags ||| UnsafeFlag) b) docs (i + 1) j tr)

theorem FnAt.lead (h : FnAt st lit b docs flags i j tr) :
    st.kindAt i = .kw_fn ∨ st.kindAt i = .kw_unsafe_ := by
  rcases h.starts with hk | ⟨hk, -⟩
  · exact .inl hk
  · exact .inr hk

/-- Also from the token behind `unsafe` on. -/
theorem fn_at {o : ℕ} {r : Regime} {ps body : SyntaxTree} {rs : List SyntaxTree}
    (hflag : Flagged st .kw_unsafe_ UnsafeFlag i j u) (hword : st.kindAt j = .kw_fn)
    (hregime : Marks st (j + 1) k r) (hname : st.kindAt k = .identifier)
    (hgenerics : GenericsAt st lit (k + 1) l gs) (hparams : Element st lit paramsParser 0 l m ps)
    (hreturn : AfterOf st .colon (Element st lit typeParser 1) m o rs)
    (hbody : BodyAt st lit b o q body) (harrow : st.kindAt o ≠ .arrow) :
    FnAt st lit b docs flags i q (.node .FnDecl (flags ||| u) (some (st.textAt k)) r.value
      (docs ++ gs ++ [ps] ++ rs ++ [body])) := by
  refine ⟨reads_fn hflag hword hregime hname hgenerics hparams hreturn hbody harrow, ?_⟩
  cases hflag with
  | absent => exact .inl hword
  | present hk =>
    refine .inr ⟨hk, hword, ?_⟩
    have hfn : RunsBehind st lit (fnParser (flags ||| UnsafeFlag) b) docs (i + 1) q _ :=
      reads_fn .absent hword hregime hname hgenerics hparams hreturn hbody harrow
    rwa [Nat.or_zero] at hfn

theorem reads_fnDecl (h : FnAt st lit true docs flags i j tr) :
    RunsBehind st lit (declParser flags) docs i j tr := by
  intro n hn s names xs t ht
  show Yields (parseDecl n (run n) xs flags) _ t
  unfold parseDecl
  refine ht.peek ?_
  rcases h.starts with hk | ⟨hk, hnext, hruns⟩
  · rw [hk]
    exact h.runs n hn s names xs t ht
  · rw [hk]
    show Yields (parseUnsafeDecl n (run n) xs flags) _ t
    unfold parseUnsafeDecl
    refine ht.peekNext ?_
    rw [if_pos hnext]
    refine ht.advance hk (by decide) fun t₁ h₁ => ?_
    exact hruns n (by omega) s names xs t₁ h₁

/-! ### Methods -/

structure MethodAt (st : TokenStream) (lit b : Bool) (i k : ℕ) (tr : SyntaxTree) : Prop where
  lt : i < k
  starts : closesElement (st.kindAt i) = false
  runs : ∃ j docs, Docs st .doc_comment .DocComment i j docs ∧ j ≤ k ∧ FnAt st lit b docs 0 j k tr

theorem Before.docComments {f : List NodeIndex → ParserM α} (h : Before st lit i t)
    (hd : Docs st .doc_comment .DocComment i j docs) (hend : st.kindAt j ≠ .doc_comment)
    (hN : j - i < N) (hf : ∀ xs names u, Gathered st lit t j names xs docs u → Yields (f xs) Q u) :
    Yields (parseDocComments N >>= f) Q t := by
  refine (h.gathered.docs_run hd rfl (by decide) hend hN).bind ?_
  rintro xs u ⟨_, names, rfl, hu⟩
  exact hf xs names u hu

theorem Gathered.methods {f : List NodeIndex → ParserM α} (h : Gathered st lit s j names xs ts t)
    (hm : SeqOf (MethodAt st lit b) j k ts') (hclose : st.kindAt k = .r_brace)
    (hn : 4 * (k - j) < n)
    (hf : ∀ zs u, Gathered st lit s k names (xs ++ zs) (ts ++ ts') u → Yields (f (cs ++ zs)) Q u) :
    Yields (iterate (methodTurn n (run n) b) n cs >>= f) Q t := by
  have hlt : ∀ i j tr, MethodAt st lit b i j tr → i < j := fun _ _ _ h => h.lt
  have hle := hm.length_le hlt
  refine (h.seq_runs hm hlt (fun i' k' tr hmethod hi hk cs xs ts t ht => ?_)
    (fun cs xs ts t ht => ?_) (by omega)).bind ?_
  · have hstarts := hmethod.starts
    obtain ⟨j', docs, hdocs, hle', hfn⟩ := hmethod.runs
    have hle'' := hdocs.le
    unfold methodTurn
    refine ht.check (ht.atEof ?_)
    rw [decide_eq_false (ne_of_starts hstarts rfl), decide_eq_false (ne_of_starts hstarts rfl),
      Bool.false_or, if_neg Bool.false_ne_true]
    refine ht.before.docComments hdocs ?_ (by omega) fun ys names' t₁ h₁ => ?_
    · rcases hfn.lead with hk | hk <;> rw [hk] <;> decide
    refine h₁.errorsSize ?_
    refine (hfn.runs n (by omega) t names' ys t₁ h₁).bind fun x t₂ hx => ?_
    have h₂ := ht.concat hx
    unfold resyncMethod
    rw [bind_assoc]
    refine h₂.errorsSize ?_
    rw [if_neg (by rw [ht.errors]; simp), pure_bind]
    exact Yields.pure ⟨x, rfl, h₂⟩
  · unfold methodTurn
    refine ht.check (ht.atEof ?_)
    rw [hclose, decide_eq_true rfl, Bool.true_or, if_pos rfl]
    exact Yields.pure ⟨rfl, rfl⟩
  · rintro _ u ⟨zs, rfl, hu⟩
    exact hf zs u hu

/-! ### Structures, enumerations, and unions -/

theorem reads_bodyDecl {word : Token.Kind} {kind : NodeKind} {construct : String}
    {p : ℕ → ParserM NodeIndex} (hword : st.kindAt i = word) (hne : word ≠ .eof)
    (hkind : encodingOf kind = .name) (hname : st.kindAt (i + 1) = .identifier)
    (hgenerics : GenericsAt st lit (i + 2) j gs) (hopen : st.kindAt j = .l_brace)
    (helems : CommasOf st (Element st lit p 1) (j + 1) k ts) (hle : j + 1 ≤ k)
    (hclose : st.kindAt k = .r_brace) :
    RunsBehind st lit (fun n docs => parseBodyDecl word kind construct n (run n) (p n) docs flags)
      docs i (k + 1) (.node kind flags (some (st.textAt (i + 1))) 0 (docs ++ gs ++ ts)) := by
  intro n hn s names xs t ht
  have hle' := hgenerics.le
  show Yields (parseBodyDecl word kind construct n (run n) (p n) xs flags) _ t
  unfold parseBodyDecl
  refine ht.expect hword hne fun t₁ h₁ => h₁.expectName hname fun name t₂ h₂ => ?_
  refine h₂.generics hgenerics (by omega) fun x t₃ h₃ => ?_
  refine h₃.expect hopen (by decide) fun t₄ h₄ => ?_
  refine h₄.parseCommaSeparated helems rfl hclose rfl (by decide) (by omega) (by omega)
    fun ys t₅ h₅ => ?_
  refine h₅.expect hclose (by decide) fun t₆ h₆ => h₆.alloc ?_
  rw [hkind]
  exact .name h₆.named

theorem RunsBehind.decl {p : ℕ → List NodeIndex → ParserM NodeIndex}
    (h : RunsBehind st lit p docs i j tr)
    (hp : ∀ n docs, (match st.kindAt i with
      | .kw_fn => parseFnDecl n (run n) docs flags true
      | .kw_unsafe_ => parseUnsafeDecl n (run n) docs flags
      | .kw_const => parseConstDecl (run n) docs flags
      | .kw_mod => parseModDecl n (run n) docs flags
      | .kw_struct => parseStructDecl n (run n) docs flags
      | .kw_enum => parseEnumDecl n (run n) docs flags
      | .kw_union => parseUnionDecl n (run n) docs flags
      | .kw_use => parseUseDecl n docs flags
      | .kw_trait => parseTraitDecl n (run n) docs flags
      | .kw_impl => parseImplDecl n (run n) docs flags
      | _ => parseBadDecl docs) = p n docs) : RunsBehind st lit (declParser flags) docs i j tr := by
  intro n hn s names xs t ht
  show Yields (parseDecl n (run n) xs flags) _ t
  unfold parseDecl
  refine ht.peek ?_
  have hrun := h n hn s names xs t ht
  rw [← hp] at hrun
  exact hrun

theorem reads_structDecl (hword : st.kindAt i = .kw_struct) (hname : st.kindAt (i + 1) = .identifier)
    (hgenerics : GenericsAt st lit (i + 2) j gs) (hopen : st.kindAt j = .l_brace)
    (hfields : CommasOf st (Element st lit structFieldParser 1) (j + 1) k ts) (hle : j + 1 ≤ k)
    (hclose : st.kindAt k = .r_brace) : RunsBehind st lit (declParser flags) docs i (k + 1)
      (.node .StructDecl flags (some (st.textAt (i + 1))) 0 (docs ++ gs ++ ts)) :=
  (reads_bodyDecl hword (by decide) rfl hname hgenerics hopen hfields hle hclose).decl
    fun n docs => by rw [hword]; rfl

theorem reads_enumDecl (hword : st.kindAt i = .kw_enum) (hname : st.kindAt (i + 1) = .identifier)
    (hgenerics : GenericsAt st lit (i + 2) j gs) (hopen : st.kindAt j = .l_brace)
    (hvariants : CommasOf st (Element st lit variantParser 1) (j + 1) k ts) (hle : j + 1 ≤ k)
    (hclose : st.kindAt k = .r_brace) : RunsBehind st lit (declParser flags) docs i (k + 1)
      (.node .EnumDecl flags (some (st.textAt (i + 1))) 0 (docs ++ gs ++ ts)) :=
  (reads_bodyDecl hword (by decide) rfl hname hgenerics hopen hvariants hle hclose).decl
    fun n docs => by rw [hword]; rfl

theorem reads_unionDecl (hword : st.kindAt i = .kw_union) (hname : st.kindAt (i + 1) = .identifier)
    (hgenerics : GenericsAt st lit (i + 2) j gs) (hopen : st.kindAt j = .l_brace)
    (hfields : CommasOf st (Element st lit structFieldParser 1) (j + 1) k ts) (hle : j + 1 ≤ k)
    (hclose : st.kindAt k = .r_brace) : RunsBehind st lit (declParser flags) docs i (k + 1)
      (.node .UnionDecl flags (some (st.textAt (i + 1))) 0 (docs ++ gs ++ ts)) :=
  (reads_bodyDecl hword (by decide) rfl hname hgenerics hopen hfields hle hclose).decl
    fun n docs => by rw [hword]; rfl

/-! ### Modules, uses, and constants -/

theorem reads_modDecl (hword : st.kindAt i = .kw_mod) (hname : st.kindAt (i + 1) = .identifier)
    (hopen : st.kindAt (i + 2) = .l_brace)
    (hitems : SeqOf (Element st lit itemParser 1) (i + 3) j ts) (hle : i + 3 ≤ j)
    (hclose : st.kindAt j = .r_brace) : RunsBehind st lit (declParser flags) docs i (j + 1)
      (.node .ModDecl flags (some (st.textAt (i + 1))) 0 (docs ++ ts)) := by
  refine RunsBehind.decl (p := fun n docs => parseModDecl n (run n) docs flags)
    (fun n hn s names xs t ht => ?_) fun n docs => by rw [hword]
  show Yields (parseModDecl n (run n) xs flags) _ t
  unfold parseModDecl
  refine ht.expect hword (by decide) fun t₁ h₁ => h₁.expectName hname fun name t₂ h₂ => ?_
  refine h₂.consume_then hopen (by decide) fun t₃ h₃ => ?_
  unfold parseModBody
  refine h₃.parseUntil hitems rfl hclose rfl (by omega) (by omega) fun ys t₄ h₄ => ?_
  exact h₄.expect hclose (by decide) fun t₅ h₅ => h₅.alloc (.name h₅.named)

theorem reads_modDeclFile (hword : st.kindAt i = .kw_mod) (hname : st.kindAt (i + 1) = .identifier)
    (hsemi : st.kindAt (i + 2) = .semi) : RunsBehind st lit (declParser flags) docs i (i + 3)
      (.node .ModDeclFile flags (some (st.textAt (i + 1))) 0 docs) := by
  refine RunsBehind.decl (p := fun n docs => parseModDecl n (run n) docs flags)
    (fun n hn s names xs t ht => ?_) fun n docs => by rw [hword]
  show Yields (parseModDecl n (run n) xs flags) _ t
  unfold parseModDecl
  refine ht.expect hword (by decide) fun t₁ h₁ => h₁.expectName hname fun name t₂ h₂ => ?_
  refine h₂.consume_else (by rw [hsemi]; decide) (h₂.check_then hsemi (h₂.peekToken ?_))
  exact h₂.advance hsemi (by decide) fun t₃ h₃ => h₃.alloc (.name h₃.named)

theorem Gathered.usePath (h : Gathered st lit s j names xs ts t) (hp : Segments st j k)
    (hend : st.kindAt k ≠ .colon_colon ∨ st.kindAt (k + 1) = .star) (hN : k - j < N) (path : Span) :
    Yields (iterate usePathTurn N path)
      (fun r u => r = ⟨path.start, if k = j then path.end else (st.tokenAt (k - 1)).tokenSpan.end⟩ ∧
        Gathered st lit s k names xs ts u) t := by
  induction hp generalizing t N path with
  | @nil k =>
    obtain ⟨N, rfl⟩ := Nat.exists_eq_add_of_le' hN
    unfold iterate Stateful.iterate usePathTurn
    rw [bind_assoc]
    by_cases hk : st.kindAt k = .colon_colon
    · refine h.check_hit hk ?_
      rw [Bool.not_true, if_neg Bool.false_ne_true, bind_assoc]
      refine h.peekNext ?_
      rw [if_pos (hend.resolve_left (not_not.mpr hk))]
      exact Yields.pure ⟨by rw [if_pos rfl], h⟩
    · refine h.check_miss hk ?_
      rw [Bool.not_false, if_pos rfl]
      exact Yields.pure ⟨by rw [if_pos rfl], h⟩
  | @cons i k hsep hname hrest ih =>
    obtain ⟨N, rfl⟩ : ∃ N', N = N' + 1 := ⟨N - 1, by omega⟩
    have hle := hrest.le
    unfold iterate Stateful.iterate usePathTurn
    rw [bind_assoc]
    refine h.check_hit hsep ?_
    rw [Bool.not_true, if_neg Bool.false_ne_true, bind_assoc]
    refine h.peekNext ?_
    rw [hname, if_neg (by decide), bind_assoc]
    refine h.peekNext ?_
    rw [hname, if_neg (by decide), bind_assoc]
    refine h.advance hsep (by decide) fun u hu => ?_
    rw [bind_assoc]
    refine hu.advance hname (by decide) fun v hv => ?_
    rw [bind_assoc]
    refine hv.previous (by rw [hname]; decide) ?_
    refine (ih hv hend (by omega) ⟨path.start, (st.tokenAt (i + 1)).tokenSpan.end⟩).mono ?_
    rintro _ w ⟨rfl, hw⟩
    refine ⟨?_, hw⟩
    rw [if_neg (show ¬ k = i by omega)]
    by_cases hk : k = i + 2
    · rw [if_pos hk, hk]
      rfl
    · rw [if_neg hk]

/-- The span of tokens `i` to `j`. -/
def spanFrom (st : TokenStream) (i j : ℕ) : Span :=
  ⟨(st.tokenAt i).tokenSpan.start, (st.tokenAt (j - 1)).tokenSpan.end⟩

/-- Behind the path of a `use`, tokens up to `k` end the name. -/
def UseTail (st : TokenStream) (lit : Bool) (i j k : ℕ) : Prop :=
  ∀ id s names xs ts t, Gathered st lit s j names xs ts t → (id, st.textFrom i j) ∈ names →
    Yields (parseUseTail (spanFrom st i j) id) (fun r u => ∃ names,
      Gathered st lit s k names xs ts u ∧ (r.2, st.textFrom i k) ∈ names) t

theorem reads_use (hword : st.kindAt i = .kw_use) (hname : st.kindAt (i + 1) = .identifier)
    (hpath : Segments st (i + 2) j) (hend : st.kindAt j ≠ .colon_colon ∨ st.kindAt (j + 1) = .star)
    (htail : UseTail st lit (i + 1) j k) (hle : j ≤ k) (hsemi : st.kindAt k = .semi) :
    RunsBehind st lit (declParser flags) docs i (k + 1)
      (.node .UseDecl flags (some (st.textFrom (i + 1) k)) 0 docs) := by
  refine RunsBehind.decl (p := fun n docs => parseUseDecl n docs flags)
    (fun n hn s names xs t ht => ?_) fun n docs => by rw [hword]
  have hle' := hpath.le
  show Yields (parseUseDecl n xs flags) _ t
  unfold parseUseDecl
  refine ht.expect hword (by decide) fun t₁ h₁ => h₁.expect hname (by decide) fun t₂ h₂ => ?_
  refine h₂.previous (by rw [hname]; decide) ?_
  refine (h₂.usePath hpath hend (by omega) _).bind ?_
  rintro path t₃ ⟨rfl, h₃⟩
  have hspan : (⟨(st.tokenAt (i + 1)).tokenSpan.start, if j = i + 2 then
      (st.tokenAt (i + 1)).tokenSpan.end else (st.tokenAt (j - 1)).tokenSpan.end⟩ : Span) =
      spanFrom st (i + 1) j := by
    unfold spanFrom
    split
    · next hj => rw [hj]; rfl
    · rfl
  rw [hspan]
  refine h₃.internText _ fun id t₄ h₄ => ?_
  refine (htail id s _ xs docs t₄ h₄ (List.mem_append_right _ (List.mem_singleton_self _))).bind ?_
  rintro ⟨span, name⟩ t₅ ⟨names', h₅, hname'⟩
  refine h₅.expect hsemi (by decide) fun t₆ h₆ => h₆.alloc ?_
  exact .name (h₆.names _ hname')

theorem useTail_nil (h : st.kindAt j ≠ .colon_colon ∧ st.kindAt j ≠ .kw_as) :
    UseTail st lit i j j := by
  intro id s names xs ts t ht hid
  unfold parseUseTail
  refine ht.check_else h.1 (ht.consume_else h.2 ?_)
  exact Yields.pure ⟨names, ht, hid⟩

theorem useTail_glob (hsep : st.kindAt j = .colon_colon) (hstar : st.kindAt (j + 1) = .star) :
    UseTail st lit i j (j + 2) := by
  intro id s names xs ts t ht _
  unfold parseUseTail
  refine ht.check_then hsep (ht.advance hsep (by decide) fun t₁ h₁ => ?_)
  refine h₁.consume_then hstar (by decide) fun t₂ h₂ => h₂.previous (by rw [hstar]; decide) ?_
  refine h₂.internText _ fun id' t₃ h₃ => Yields.pure ⟨_, h₃, ?_⟩
  exact List.mem_append_right _ (List.mem_singleton_self _)

theorem useTail_alias (has : st.kindAt j = .kw_as) (halias : st.kindAt (j + 1) = .identifier) :
    UseTail st lit i j (j + 2) := by
  intro id s names xs ts t ht _
  unfold parseUseTail
  refine ht.check_else (by rw [has]; decide) (ht.consume_then has (by decide) fun t₁ h₁ => ?_)
  unfold expectAndIntern
  rw [bind_assoc]
  refine h₁.expect halias (by decide) fun t₂ h₂ => h₂.internText _ fun id' t₃ h₃ => ?_
  refine h₃.previous (by rw [halias]; decide) ?_
  refine h₃.internText _ fun id'' t₄ h₄ => Yields.pure ⟨_, h₄, ?_⟩
  exact List.mem_append_right _ (List.mem_singleton_self _)

theorem reads_constDecl (hword : st.kindAt i = .kw_const) (hname : st.kindAt (i + 1) = .identifier)
    (hcolon : st.kindAt (i + 2) = .colon) (htype : Element st lit typeParser 1 (i + 3) j type)
    (heq : st.kindAt j = .eq) (hvalue : Element st lit exprParser 1 (j + 1) k value)
    (hsemi : st.kindAt k = .semi) : RunsBehind st lit (declParser flags) docs i (k + 1)
      (.node .ConstDecl flags (some (st.textAt (i + 1))) 0 (docs ++ [type, value])) := by
  refine RunsBehind.decl (p := fun n docs => parseConstDecl (run n) docs flags)
    (fun n hn s names xs t ht => ?_) fun n docs => by rw [hword]
  have hlt := htype.lt
  have hlt' := hvalue.lt
  show Yields (parseConstDecl (run n) xs flags) _ t
  unfold parseConstDecl
  refine ht.expect hword (by decide) fun t₁ h₁ => h₁.expectName hname fun name t₂ h₂ => ?_
  refine h₂.expect hcolon (by decide) fun t₃ h₃ => ?_
  refine h₃.call htype rfl (by omega) fun x t₄ h₄ => ?_
  refine h₄.expect heq (by decide) fun t₅ h₅ => ?_
  refine h₅.call hvalue rfl (by omega) fun y t₆ h₆ => ?_
  refine h₆.expect hsemi (by decide) fun t₇ h₇ => Yields.read rfl ?_
  rw [List.append_assoc, List.append_assoc] at h₇
  exact h₇.alloc (.name h₇.named)

/-! ### Traits and implementations -/

theorem reads_traitDecl (hword : st.kindAt i = .kw_trait) (hname : st.kindAt (i + 1) = .identifier)
    (hgenerics : GenericsAt st lit (i + 2) j gs) (hopen : st.kindAt j = .l_brace)
    (hmethods : SeqOf (MethodAt st lit false) (j + 1) k ts) (hle : j + 1 ≤ k)
    (hclose : st.kindAt k = .r_brace) : RunsBehind st lit (declParser flags) docs i (k + 1)
      (.node .TraitDecl flags (some (st.textAt (i + 1))) 0 (docs ++ gs ++ ts)) := by
  refine RunsBehind.decl (p := fun n docs => parseTraitDecl n (run n) docs flags)
    (fun n hn s names xs t ht => ?_) fun n docs => by rw [hword]
  have hle' := hgenerics.le
  show Yields (parseTraitDecl n (run n) xs flags) _ t
  unfold parseTraitDecl
  refine ht.expect hword (by decide) fun t₁ h₁ => h₁.expectName hname fun name t₂ h₂ => ?_
  refine h₂.generics hgenerics (by omega) fun x t₃ h₃ => ?_
  refine h₃.expect hopen (by decide) fun t₄ h₄ => ?_
  refine h₄.methods hmethods hclose (by omega) fun ys t₅ h₅ => ?_
  exact h₅.expect hclose (by decide) fun t₆ h₆ => h₆.alloc (.name h₆.named)

/-- The trait is not there, or another type before `for`. -/
def ImplTypes (st : TokenStream) (lit : Bool) (i j : ℕ) (ts : List SyntaxTree) : Prop :=
  (∃ type, Element st lit typeParser 1 i j type ∧ st.kindAt j ≠ .kw_for ∧ ts = [.missing, type]) ∨
    ∃ k trait type, Element st lit typeParser 1 i k trait ∧ st.kindAt k = .kw_for ∧
      Element st lit typeParser 1 (k + 1) j type ∧ ts = [trait, type]

theorem ImplTypes.lt (h : ImplTypes st lit i j ts) : i < j := by
  rcases h with ⟨type, htype, -⟩ | ⟨k, trait, type, htrait, -, htype, -⟩
  · exact htype.lt
  · have hlt := htrait.lt
    have hlt' := htype.lt
    omega

theorem Gathered.implTypes {f : List NodeIndex → ParserM α} (h : Gathered st lit s i names xs ts t)
    (hi : ImplTypes st lit i j ts') (hn : 4 * (j - i) + 1 ≤ n)
    (hf : ∀ ys u, Gathered st lit s j names (xs ++ ys) (ts ++ ts') u → Yields (f ys) Q u) :
    Yields (parseImplTypes (run n) >>= f) Q t := by
  unfold parseImplTypes
  rw [bind_assoc]
  rcases hi with ⟨type, htype, hfor, rfl⟩ | ⟨k, trait, type, htrait, hfor, htype, rfl⟩
  · refine (htype.runs n hn t h.before).bind fun x t₁ hx => ?_
    have h₁ := h.concat_missing.concat hx
    rw [bind_assoc]
    refine h₁.consume_miss hfor ?_
    rw [if_neg Bool.false_ne_true, pure_bind]
    rw [List.append_assoc, List.append_assoc] at h₁
    exact hf _ t₁ h₁
  · have hlt := htrait.lt
    have hlt' := htype.lt
    refine h.call htrait rfl (by omega) fun x t₁ h₁ => ?_
    rw [bind_assoc]
    refine h₁.consume_hit hfor (by decide) fun t₂ h₂ => ?_
    rw [if_pos rfl, bind_assoc]
    refine h₂.call htype rfl (by omega) fun y t₃ h₃ => ?_
    rw [pure_bind]
    rw [List.append_assoc, List.append_assoc] at h₃
    exact hf _ t₃ h₃

theorem reads_implDecl (hword : st.kindAt i = .kw_impl) (hgenerics : GenericsAt st lit (i + 1) j gs)
    (htypes : ImplTypes st lit j k ts) (hopen : st.kindAt k = .l_brace)
    (hmethods : SeqOf (MethodAt st lit true) (k + 1) l ts') (hle : k + 1 ≤ l)
    (hclose : st.kindAt l = .r_brace) : RunsBehind st lit (declParser flags) docs i (l + 1)
      (.node .ImplDecl flags none 0 (docs ++ gs ++ ts ++ ts')) := by
  refine RunsBehind.decl (p := fun n docs => parseImplDecl n (run n) docs flags)
    (fun n hn s names xs t ht => ?_) fun n docs => by rw [hword]
  have hle' := hgenerics.le
  have hlt := htypes.lt
  show Yields (parseImplDecl n (run n) xs flags) _ t
  unfold parseImplDecl
  refine ht.expect hword (by decide) fun t₁ h₁ => ?_
  refine h₁.generics hgenerics (by omega) fun x t₂ h₂ => ?_
  refine h₂.implTypes htypes (by omega) fun ys t₃ h₃ => ?_
  refine h₃.expect hopen (by decide) fun t₄ h₄ => ?_
  refine h₄.methods hmethods hclose (by omega) fun zs t₅ h₅ => ?_
  exact h₅.expect hclose (by decide) fun t₆ h₆ => h₆.alloc (.plain 0)

/-! ### Items and files -/

theorem reads_item (hdocs : Docs st .doc_comment .DocComment i j docs)
    (hdoc : st.kindAt j ≠ .doc_comment) (hpub : Flagged st .kw_pub PubFlag j k flags)
    (hword : st.kindAt k ≠ .kw_pub) (h : RunsBehind st lit (declParser flags) docs k l tr)
    (hlt : k < l) : Runs st lit itemParser 1 i l tr := by
  intro n hn s hs
  have hle := hdocs.le
  have hle' := hpub.le
  obtain ⟨n, rfl⟩ : ∃ n', n = n' + 1 := ⟨n - 1, by omega⟩
  show Yields (parseTopLevelDecl n (run n)) _ s
  unfold parseTopLevelDecl
  refine hs.docComments hdocs hdoc (by omega) fun xs names t₁ h₁ => ?_
  unfold consumePub
  rw [bind_assoc]
  cases hpub with
  | absent =>
    refine h₁.consume_miss hword ?_
    rw [if_neg Bool.false_ne_true, pure_bind]
    exact h n (by omega) s names xs t₁ h₁
  | present hk =>
    refine h₁.consume_hit hk (by decide) fun t₂ h₂ => ?_
    rw [if_pos rfl, pure_bind]
    exact h n (by omega) s names xs t₂ h₂

theorem reads_file (hdocs : Docs st .file_doc_comment .FileDocComment i j docs)
    (hdoc : st.kindAt j ≠ .file_doc_comment) (hitems : SeqOf (Element st lit itemParser 1) j k ts)
    (hle : j ≤ k) (heof : st.kindAt k = .eof) :
    Runs st lit parseSourceFile 1 i k (.node .SourceFile 0 none 0 (docs ++ ts)) := by
  intro n hn s hs
  have hle' := hdocs.le
  have hlt : ∀ i j tr, Element st lit itemParser 1 i j tr → i < j := fun _ _ _ h => h.lt
  have hlen := hitems.length_le hlt
  unfold parseSourceFile
  refine hs.gathered.peekToken ?_
  unfold parseFileDocComments parseDocs
  refine (hs.gathered.docs_run hdocs rfl (by decide) hdoc (by omega)).bind ?_
  rintro xs t₁ ⟨_, names, rfl, h₁⟩
  refine (h₁.seq_runs hitems hlt (fun i' j' tr hitem hi hj cs xs ts t ht => ?_)
    (fun cs xs ts t ht => ?_) (by omega)).bind ?_
  · unfold sourceTurn
    refine ht.atEof ?_
    rw [decide_eq_false (ne_of_starts hitem.starts rfl), if_neg Bool.false_ne_true]
    exact ht.call hitem rfl (by omega) fun x u hu => Yields.pure ⟨x, rfl, hu⟩
  · unfold sourceTurn
    refine ht.atEof ?_
    rw [heof, decide_eq_true rfl, if_pos rfl]
    exact Yields.pure ⟨rfl, rfl⟩
  · rintro _ t₂ ⟨zs, rfl, h₂⟩
    exact Yields.read rfl (h₂.alloc (.plain 0))

end Eter.Parser
