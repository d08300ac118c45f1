import Eter.QuietParams
import Eter.GrammarRuns

/-!
# Declarations and files are found

A file that is parsed with nothing reported is a file of the grammar.
-/

namespace Eter.Parser
open Stateful NodePool Diag

variable {α : Type} {st : TokenStream} {lit b : Bool} {s t : PState} {n N e i j k u flags : ℕ}
  {Q : α → PState → Prop} {x : NodeIndex} {xs cs : List NodeIndex} {docs : List SyntaxTree}
  {word : Token.Kind} {kind : NodeKind} {ph : Phrase} {m : ParserM NodeIndex}

/-! ### Docs -/

theorem AtToken.docComments {f : List NodeIndex → ParserM α} [∀ ys, Ascends (f ys)]
    (hs : AtToken st lit e i s) (hword : word ≠ .eof) (hkind : kind ≠ .Error)
    (hf : ∀ ys j ts t, AtToken st lit e j t → Docs st word kind i j ts → Quiet (f ys) Q t) :
    Quiet (parseDocs n word kind >>= f) Q s :=
  hs.call (docs_find hword hkind hs) fun ys j t ht hj hdocs => by
    obtain ⟨ts, hts⟩ := hdocs
    subst hj
    exact hf ys _ ts t ht hts

/-! ### Bodies -/

theorem bodyDecl_found {construct : String} {ph' : Phrase} [Ascends m] (h : Recognition st n)
    (hs : AtToken st lit e i s) (hword : word ≠ .eof) (hkind : kind ≠ .Error)
    (hm : Recognises st lit ph m) {tree : ℕ → List SyntaxTree → List SyntaxTree → SyntaxTree}
    (hder : ∀ j k gs ts, st.kindAt i = word → st.kindAt (i + 1) = .identifier →
      Derives st lit .generics (i + 2) j gs → st.kindAt j = .l_brace →
      Derives st lit (.commas ph) (j + 1) k ts → st.kindAt k = .r_brace →
      Derives st lit ph' i (k + 1) [tree k gs ts]) :
    Quiet (parseBodyDecl word kind construct n (run n) m xs flags)
      (Found fun j tr => Derives st lit ph' i j [tr]) s := by
  unfold parseBodyDecl
  refine hs.expect hword fun hk t₁ h₁ => h₁.expectName fun hname id t₂ h₂ _ => ?_
  refine h₂.generics h fun y j gs t₃ h₃ hgs => h₃.expect (by decide) fun hopen t₄ h₄ => ?_
  refine h₄.commaSeparated hm fun ys k ts t₅ h₅ hts _ => ?_
  exact h₅.expect (by decide) fun hclose t₆ h₆ =>
    h₆.alloc hkind (hder j k gs ts hk hname hgs hopen hts hclose)

instance (span : Span) (id : InternedStr) : Ascends (parseModBody n (run n) span id xs flags) := by
  unfold parseModBody
  infer_instance

theorem modDecl_found (h : Recognition st n) (hs : AtToken st lit e i s) :
    Quiet (parseModDecl n (run n) xs flags)
      (Found fun j tr => Derives st lit (.decl docs u) i j [tr]) s := by
  unfold parseModDecl
  refine hs.expect (by decide) fun hword t₁ h₁ => h₁.expectName fun hname id t₂ h₂ _ => ?_
  refine h₂.consumed (by decide) (fun hopen t₃ h₃ => ?_) fun _ => h₂.branch (fun hsemi => ?_) fun _ => ?_
  · unfold parseModBody
    refine h₃.parseUntil (h.item lit) fun ys j ts t₄ h₄ hts => ?_
    exact h₄.expect (by decide) fun hclose t₅ h₅ =>
      h₅.alloc (by decide) (.modDecl hword hname hopen hts hclose)
  · refine h₂.peekToken (h₂.advance (by rw [hsemi]; decide) fun t₃ h₃ => ?_)
    exact h₃.alloc (by decide) (.modDeclFile hword hname hsemi)
  · exact h₂.peekToken Quiet.addError

/-! ### Uses and constants -/

instance (span : Span) : Ascends (usePathTurn span) :=
  ascends_of_leads (precedes_walk.usePathTurn span)

instance (span : Span) (id : InternedStr) : Ascends (parseUseTail span id) :=
  ascends_of_leads (precedes_walk.parseUseTail span id)

theorem usePath_finds {span : Span} (hs : AtToken st lit e i s) :
    Quiet (iterate usePathTurn N span) (fun _ t => Segments st i t.stream.cursor) s := by
  induction N generalizing i s span with
  | zero => exact Silent.throw
  | succ N ih =>
    refine Silent.turn noise_mono (A := fun _ t => AtToken st lit e (i + 2) t ∧
      st.kindAt i = .colon_colon ∧ st.kindAt (i + 1) = .identifier) ?_ ?_
    · have hdone : Quiet (pure (.done span) : ParserM (Turn Span Span)) (fun r t => r.Leads
          (fun _ => AtToken st lit e (i + 2) t ∧ st.kindAt i = .colon_colon ∧
            st.kindAt (i + 1) = .identifier) (fun _ => Segments st i t.stream.cursor)) s :=
        Silent.pure (hs.cursor ▸ .nil)
      unfold usePathTurn
      refine hs.unless (fun _ => hdone) fun hsep => hs.peekNext ?_
      split
      · exact hdone
      · refine hs.peekNext ?_
        split
        · exact hdone
        · next hname =>
          refine hs.advance (by rw [hsep]; decide) fun t₁ h₁ => ?_
          refine h₁.advance (by rw [not_not.mp hname]; decide) fun t₂ h₂ => Quiet.previous fun _ => ?_
          exact Silent.pure ⟨h₂, hsep, not_not.mp hname⟩
    · rintro _ t ⟨ht, hsep, hname⟩
      exact (ih ht).mono fun _ _ hrest => .cons hsep hname hrest

/-- What may stand behind the path of a use. -/
def TailTo (st : TokenStream) (i j : ℕ) : Prop :=
  j = i ∨ j = i + 2 ∧ st.kindAt i = .colon_colon ∧ st.kindAt (i + 1) = .star ∨
    j = i + 2 ∧ st.kindAt i = .kw_as ∧ st.kindAt (i + 1) = .identifier

theorem useTail_finds {span : Span} {id : InternedStr} (hs : AtToken st lit e i s) :
    Quiet (parseUseTail span id) (fun _ t => TailTo st i t.stream.cursor) s := by
  unfold parseUseTail
  refine hs.branch (fun hsep => ?_) fun _ => ?_
  · refine hs.advance (by rw [hsep]; decide) fun t₁ h₁ => h₁.consumed (by decide)
      (fun hstar t₂ h₂ => Quiet.previous fun _ => h₂.internText fun _ t₃ h₃ _ => ?_) fun _ => ?_
    · exact Silent.pure (.inr (.inl ⟨h₃.cursor, hsep, hstar⟩))
    · exact h₁.peekToken Quiet.addError
  · refine hs.consumed (by decide) (fun has t₁ h₁ => ?_) fun _ => Silent.pure (.inl hs.cursor)
    unfold expectAndIntern
    rw [bind_assoc]
    refine h₁.expect (by decide) fun halias t₂ h₂ => h₂.internText fun _ t₃ h₃ _ => ?_
    refine Quiet.previous fun _ => h₃.internText fun _ t₄ h₄ _ => ?_
    exact Silent.pure (.inr (.inr ⟨h₄.cursor, has, halias⟩))

theorem useDecl_found (hs : AtToken st lit e i s) : Quiet (parseUseDecl n xs flags)
    (Found fun j tr => Derives st lit (.decl docs u) i j [tr]) s := by
  unfold parseUseDecl
  refine hs.expect (by decide) fun hword t₁ h₁ => h₁.expect (by decide) fun hname t₂ h₂ => ?_
  refine Quiet.previous fun _ => h₂.call (usePath_finds h₂) fun _ j t₃ h₃ hj hpath => ?_
  subst hj
  refine h₃.internText fun id t₄ h₄ _ => h₄.call (useTail_finds h₄) fun _ k t₅ h₅ hk htail => ?_
  subst hk
  refine h₅.expect (by decide) fun hsemi t₆ h₆ => ?_
  rcases htail with hk | ⟨hk, hsep, hstar⟩ | ⟨hk, has, halias⟩ <;> rw [hk] at hsemi h₆
  · exact h₆.alloc (by decide) (.useDecl hword hname hpath hsemi)
  · exact h₆.alloc (by decide) (.useGlob hword hname hpath hsep hstar hsemi)
  · exact h₆.alloc (by decide) (.useAlias hword hname hpath has halias hsemi)

theorem constDecl_found (h : Recognition st n) (hs : AtToken st lit e i s) :
    Quiet (parseConstDecl (run n) xs flags)
      (Found fun j tr => Derives st lit (.decl docs u) i j [tr]) s := by
  unfold parseConstDecl
  refine hs.expect (by decide) fun hword t₁ h₁ => h₁.expectName fun hname id t₂ h₂ _ => ?_
  refine h₂.expect (by decide) fun hcolon t₃ h₃ => ?_
  refine h₃.find (h.type lit _) fun x j type t₄ h₄ _ htype => h₄.expect (by decide) fun heq t₅ h₅ => ?_
  refine h₅.find (h.full lit _) fun y k value t₆ h₆ _ hvalue => ?_
  refine h₆.expect (by decide) fun hsemi t₇ h₇ => Quiet.previous fun _ => ?_
  exact h₇.alloc (by decide) (.constDecl hword hname hcolon htype heq hvalue hsemi)

/-! ### Traits and implementations -/

instance : Ascends (methodTurn n (run n) b cs) :=
  ascends_of_leads (precedes_walk.methodTurn (run_walk n).toWalkRec b cs)

instance : Ascends (resyncMethod i) := by
  unfold resyncMethod
  infer_instance

theorem methods_find (h : Recognition st n) (hs : AtToken st lit e i s) :
    Quiet (iterate (methodTurn n (run n) b) N cs) (fun _ t => ∃ ts,
      Derives st lit (.seq (.method b)) i t.stream.cursor ts) s := by
  induction N generalizing i s cs with
  | zero => exact Silent.throw
  | succ N ih =>
    refine Silent.turn noise_mono (A := fun _ t => ∃ j tr, AtToken st lit e j t ∧
      Derives st lit (.method b) i j [tr]) ?_ ?_
    · unfold methodTurn
      refine hs.check (hs.atEof ?_)
      split
      · exact Silent.pure ⟨[], hs.cursor ▸ .noSeq⟩
      · refine hs.docComments (by decide) (by decide) fun ys j docs t₁ h₁ hdocs => h₁.errorsSize ?_
        refine h₁.find (h.parseFnDecl lit docs 0 _) fun x k f t₂ h₂ _ hf => ?_
        unfold resyncMethod
        rw [bind_assoc]
        refine h₂.errorsSize ?_
        rw [if_neg (by simp), pure_bind]
        exact Silent.pure ⟨k, f, h₂, .method hdocs hf⟩
    · rintro _ t ⟨j, tr, ht, htr⟩
      refine (ih ht).mono fun _ _ hrest => ?_
      obtain ⟨ts, hts⟩ := hrest
      exact ⟨tr :: ts, .moreSeq htr hts⟩

theorem AtToken.methods {f : List NodeIndex → ParserM α} [∀ ys, Ascends (f ys)]
    (hs : AtToken st lit e i s) (h : Recognition st n)
    (hf : ∀ ys j ts t, AtToken st lit e j t → Derives st lit (.seq (.method b)) i j ts →
      Quiet (f ys) Q t) : Quiet (iterate (methodTurn n (run n) b) N cs >>= f) Q s :=
  hs.call (methods_find h hs) fun ys j t ht hj hrest => by
    obtain ⟨ts, hts⟩ := hrest
    subst hj
    exact hf ys _ ts t ht hts

theorem traitDecl_found (h : Recognition st n) (hs : AtToken st lit e i s) :
    Quiet (parseTraitDecl n (run n) xs flags)
      (Found fun j tr => Derives st lit (.decl docs u) i j [tr]) s := by
  unfold parseTraitDecl
  refine hs.expect (by decide) fun hword t₁ h₁ => h₁.expectName fun hname id t₂ h₂ _ => ?_
  refine h₂.generics h fun y j gs t₃ h₃ hgs => h₃.expect (by decide) fun hopen t₄ h₄ => ?_
  refine h₄.methods h fun ys k ts t₅ h₅ hts => h₅.expect (by decide) fun hclose t₆ h₆ => ?_
  exact h₆.alloc (by decide) (.traitDecl hword hname hgs hopen hts hclose)

theorem implDecl_found (h : Recognition st n) (hs : AtToken st lit e i s) :
    Quiet (parseImplDecl n (run n) xs flags)
      (Found fun j tr => Derives st lit (.decl docs u) i j [tr]) s := by
  unfold parseImplDecl parseImplTypes
  refine hs.expect (by decide) fun hword t₁ h₁ => h₁.generics h fun y j gs t₂ h₂ hgs => ?_
  rw [bind_assoc]
  refine h₂.find (h.type lit _) fun x k first t₃ h₃ _ hfirst => ?_
  rw [bind_assoc]
  refine h₃.consume (by decide) (fun hfor t₄ h₄ => ?_) fun _ => ?_
  · rw [if_pos rfl, bind_assoc]
    refine h₄.find (h.type lit _) fun z l type t₅ h₅ _ htype => ?_
    rw [pure_bind]
    refine h₅.expect (by decide) fun hopen t₆ h₆ => h₆.methods h fun ys o ts t₇ h₇ hts => ?_
    exact h₇.expect (by decide) fun hclose t₈ h₈ => h₈.alloc (by decide)
      (.implTrait hword hgs hfirst hfor htype hopen hts hclose)
  · rw [if_neg Bool.false_ne_true, pure_bind]
    refine h₃.expect (by decide) fun hopen t₄ h₄ => h₄.methods h fun ys o ts t₅ h₅ hts => ?_
    exact h₅.expect (by decide) fun hclose t₆ h₆ => h₆.alloc (by decide)
      (.implDecl hword hgs hfirst hopen hts hclose)

/-! ### The top level -/

/-- Behind `fn` a second `unsafe` is no part of the function. -/
theorem Derives.unsafe_fn {tr : SyntaxTree} (h : Derives st lit (.fn docs u b) (i + 1) j [tr])
    (hfn : st.kindAt (i + 1) = .kw_fn) (hword : st.kindAt i = .kw_unsafe_) :
    ∃ f, Derives st lit (.fn docs u b) i j [f] := by
  cases h with
  | fn hflag hk hregime hname hgs hps hrs hbody =>
    cases hflag with
    | absent => exact ⟨_, .fn (.present hword) hk hregime hname hgs hps hrs hbody⟩
    | present hu =>
      rw [hfn] at hu
      cases hu

theorem unsafeDecl_found (h : Recognition st n) (hs : AtToken st lit e i s)
    (hword : st.kindAt i = .kw_unsafe_) : Quiet (parseUnsafeDecl n (run n) xs flags)
      (Found fun j tr => Derives st lit (.decl docs u) i j [tr]) s := by
  unfold parseUnsafeDecl
  refine hs.peekNext ?_
  split
  · next hfn =>
    refine hs.advance (by rw [hword]; decide) fun t₁ h₁ => ?_
    refine (h.parseFnDecl lit docs u _ e t₁ h₁).mono fun x t₂ hx => ?_
    obtain ⟨hproper, tr, htr⟩ := hx
    obtain ⟨f, hf⟩ := htr.unsafe_fn hfn hword
    exact ⟨hproper, f, .fnDecl hf⟩
  · exact constDecl_found h hs

instance (span : Span) : Ascends (rejectDocs xs span) := by
  unfold rejectDocs
  infer_instance

instance (ys : List NodeIndex) : Ascends (parseDecl n (run n) ys flags) :=
  ascends_of_leads (precedes_walk.parseDecl (run_walk n) ys flags)

theorem decl_found (h : Recognition st n) (hs : AtToken st lit e i s) :
    Quiet (parseDecl n (run n) xs flags)
      (Found fun j tr => Derives st lit (.decl docs u) i j [tr]) s := by
  unfold parseDecl
  refine hs.peek ?_
  split
  · exact (h.parseFnDecl lit docs u).as hs fun _ _ => .fnDecl
  · next hk => exact unsafeDecl_found h hs hk
  · exact constDecl_found h hs
  · exact modDecl_found h hs
  · exact bodyDecl_found h hs (by decide) (by decide) (h.parseStructField lit)
      fun _ _ _ _ => .structDecl
  · exact bodyDecl_found h hs (by decide) (by decide) (h.parseEnumVariant lit)
      fun _ _ _ _ => .enumDecl
  · exact bodyDecl_found h hs (by decide) (by decide) (h.parseStructField lit)
      fun _ _ _ _ => .unionDecl
  · exact useDecl_found hs
  · exact traitDecl_found h hs
  · exact implDecl_found h hs
  · unfold parseBadDecl
    exact hs.peekToken (Quiet.behind fun _ _ => Quiet.addError)

instance : Ascends consumePub := by
  unfold consumePub
  infer_instance

theorem consumePub_finds (hs : AtToken st lit e i s) : Quiet consumePub (fun _ t => ∃ j u,
    AtToken st lit e j t ∧ Flagged st .kw_pub PubFlag i j u) s := by
  unfold consumePub
  refine hs.consumed (by decide) (fun hk t₁ h₁ => ?_) fun _ => ?_
  · exact Silent.pure ⟨_, _, h₁, .present hk⟩
  · exact Silent.pure ⟨_, _, hs, .absent⟩

theorem Recognition.parseTopLevelDecl (h : Recognition st n) (lit : Bool) :
    Recognises st lit .item (parseTopLevelDecl n (run n)) := by
  intro i e s hs
  unfold Parser.parseTopLevelDecl
  refine hs.docComments (by decide) (by decide) fun ys j docs t₁ h₁ hdocs => ?_
  refine h₁.call (consumePub_finds h₁) fun flags _ t₂ _ _ hpub => ?_
  obtain ⟨k, u, h₂, hpub⟩ := hpub
  refine Silent.mono (decl_found h h₂ : Quiet _ (Found fun l tr =>
    Derives st lit (.decl docs u) k l [tr]) t₂) fun x t₃ hx => ?_
  exact ⟨hx.1, hx.2.imp fun _ htr => .item hdocs hpub htr⟩

/-! ### The recursion -/

/-- At every depth the productions recognise their phrases. -/
theorem recognition (st : TokenStream) (n : ℕ) : Recognition st n := by
  induction n with
  | zero =>
    exact ⟨fun _ _ _ _ _ _ _ _ => Silent.throw, fun _ _ _ _ _ => Silent.throw,
      fun _ _ _ _ _ => Silent.throw, fun _ _ _ _ _ => Silent.throw, fun _ _ _ _ _ => Silent.throw,
      fun _ _ _ _ _ => Silent.throw, fun _ _ _ _ _ => Silent.throw⟩
  | succ n ih =>
    exact ⟨fun lit m hm₀ hm i => ih.parseExpr lit hm₀ hm i, ih.parseType, ih.parsePat, ih.parseStmt,
      ih.parseBlockExpr, ih.parseIfExpr, ih.parseTopLevelDecl⟩

/-! ### Files -/

instance : Ascends (sourceTurn (run n) cs) := by
  unfold sourceTurn
  infer_instance

theorem items_find (hs : AtToken st lit e i s) : Quiet (iterate (sourceTurn (run n)) N cs)
    (fun _ t => ∃ ts, Derives st lit (.seq .item) i t.stream.cursor ts ∧
      st.kindAt t.stream.cursor = .eof) s := by
  induction N generalizing i s cs with
  | zero => exact Silent.throw
  | succ N ih =>
    refine Silent.turn noise_mono (A := fun _ t => ∃ j tr, AtToken st lit e j t ∧
      Derives st lit .item i j [tr]) ?_ ?_
    · unfold sourceTurn
      refine hs.atEof ?_
      split
      · next heof =>
        refine Silent.pure ⟨[], ?_⟩
        rw [hs.cursor]
        exact ⟨.noSeq, of_decide_eq_true heof⟩
      · refine hs.find ((recognition st n).item lit _) fun x j tr t₁ h₁ _ htr => ?_
        exact Silent.pure ⟨j, tr, h₁, htr⟩
    · rintro _ t ⟨j, tr, ht, htr⟩
      refine (ih ht).mono fun _ _ hrest => ?_
      obtain ⟨ts, hts, heof⟩ := hrest
      exact ⟨tr :: ts, .moreSeq htr hts, heof⟩

theorem sourceFile_found (hs : AtToken st lit e i s) :
    Quiet (parseSourceFile n) (Found fun j tr => Derives st lit .file i j [tr]) s := by
  unfold parseSourceFile
  refine hs.peekToken (hs.docComments (by decide) (by decide) fun ys j docs t₁ h₁ hdocs => ?_)
  refine h₁.call (items_find h₁) fun zs k t₂ h₂ hk hitems => ?_
  obtain ⟨ts, hts, heof⟩ := hitems
  subst hk
  exact Quiet.previous fun _ => h₂.alloc (by decide) (.file hdocs hts heof)

variable {tokens : List Token} {lexErrors : List LexerError} {source : Bytes}
  {interner : StringInterner} {r : ParseResult} {tr : SyntaxTree}

theorem derives_of_parse (hp : parse n (.fresh tokens lexErrors source) interner = .ok (r, s))
    (hquiet : r.errors = []) : ∃ j tr, Derives (.fresh tokens lexErrors source) true .file 0 j [tr] := by
  unfold parse at hp
  split at hp
  · next root t hrun =>
    cases hp
    have hstart : AtToken (.fresh tokens lexErrors source) true 0 0
        (initialState (.fresh tokens lexErrors source) interner) := ⟨rfl, rfl, rfl, rfl, rfl⟩
    have hnoise : s.noise = 0 := congrArg List.length hquiet
    obtain ⟨-, tr, htr⟩ := sourceFile_found hstart root s hrun hnoise
    exact ⟨_, tr, htr⟩
  · cases hp

theorem pool_of_parse (hp : parse n (.fresh tokens lexErrors source) interner = .ok (r, s)) :
    r.pool = s.pool := by
  unfold parse at hp
  split at hp
  · cases hp
    rfl
  · cases hp

theorem quiet_of_derives (hn : enough tokens ≤ n)
    (hp : parse n (.fresh tokens lexErrors source) interner = .ok (r, s))
    (h : Derives (.fresh tokens lexErrors source) true .file 0 j [tr]) :
    r.errors = [] ∧ s.Denotes r.root tr.stored := by
  obtain ⟨r', s', hp', hquiet, hroot⟩ := parse_of_derives h hn
  rw [hp] at hp'
  cases hp'
  exact ⟨hquiet, hroot⟩

/-- The parser decides the grammar: it comes to an end, it reports nothing exactly when the tokens are
a file, and then the root stands for the tree of every derivation. -/
theorem parse_decides (hn : enough tokens ≤ n) :
    ∃ r s, parse n (.fresh tokens lexErrors source) interner = .ok (r, s) ∧
      (r.errors = [] ↔ ∃ j tr, Derives (.fresh tokens lexErrors source) true .file 0 j [tr]) ∧
      ∀ j tr, Derives (.fresh tokens lexErrors source) true .file 0 j [tr] →
        s.Denotes r.root tr.stored := by
  obtain ⟨r, s, hp, -⟩ := parse_spec .acceptance lexErrors source interner hn
  refine ⟨r, s, hp, ⟨derives_of_parse hp, ?_⟩, fun j tr htr => (quiet_of_derives hn hp htr).2⟩
  rintro ⟨j, tr, htr⟩
  exact (quiet_of_derives hn hp htr).1

theorem emptyFn_decided : ∃ r s, parse 29 (.fresh emptyFn [] []) .new = .ok (r, s) ∧
    ∃ j tr, Derives (.fresh emptyFn [] []) true .file 0 j [tr] ∧ s.Denotes r.root tr.stored := by
  obtain ⟨r, s, hp, hquiet, -⟩ := emptyFn_parses
  obtain ⟨r', s', hp', hdecides, hroot⟩ := @parse_decides 29 emptyFn [] [] .new (by decide)
  rw [hp] at hp'
  cases hp'
  obtain ⟨j, tr, htr⟩ := hdecides.mp hquiet
  exact ⟨r, s, hp, j, tr, htr, hroot j tr htr⟩

end Eter.Parser
