import Eter.QuietLists

/-!
# Types, patterns, and generic parameters are found
-/

namespace Eter.Parser
open Stateful NodePool Diag

variable {α : Type} {st : TokenStream} {lit b : Bool} {s t : PState} {n e i j : ℕ}
  {Q : α → PState → Prop} {name : InternedStr} {start : Span}

/-- What the productions of depth `n` recognise. -/
structure Recognition (st : TokenStream) (n : ℕ) : Prop where
  expr : ∀ (lit : Bool) (m : ℤ), 0 ≤ m → m ≤ 110 → ∀ i, Finds st lit (run n (.expr m)) i fun j tr =>
    ∃ p : ℕ, Derives st lit (.expr p) i j [tr] ∧ m ≤ p ∧ Ends (st.kindAt j) m
  type : ∀ lit, Recognises st lit .type (run n .type)
  pat : ∀ lit, Recognises st lit .pat (run n .pat)
  stmt : ∀ lit, Recognises st lit .stmt (run n .stmt)
  block : ∀ lit, Recognises st lit .block (run n .block)
  ifExpr : ∀ lit, Recognises st lit .ifExpr (run n .ifExpr)
  item : ∀ lit, Recognises st lit .item (run n .topLevelDecl)

theorem Recognition.full (h : Recognition st n) (lit : Bool) :
    Recognises st lit .full (run n (.expr 0)) := by
  intro i e s hs
  refine (h.expr lit 0 le_rfl (by decide) i e s hs).mono fun x t hx => ?_
  obtain ⟨hproper, tr, p, hder, -, hends⟩ := hx
  exact ⟨hproper, tr, .full hder hends⟩

/-! ### Types -/

instance : Ascends (parseConstExpr (run n)) := inferInstanceAs (Ascends (run n (.expr 0)))

instance (empty : Bool) : Ascends (requireDim empty) :=
  ascends_of_leads (precedes_walk.requireDim empty)

theorem Quiet.requireDim {empty : Bool} {f : Unit → ParserM α} [∀ a, Ascends (f a)]
    (hf : empty = false → Quiet (f ()) Q s) : Quiet (Parser.requireDim empty >>= f) Q s := by
  unfold Parser.requireDim
  cases empty with
  | false => exact hf rfl
  | true =>
    rw [if_pos rfl, bind_assoc]
    exact Quiet.reads (fun _ _ hm => by cases hm; rfl) fun tok => Quiet.addError

theorem namedType_found (h : AtToken st lit e i s) :
    Quiet (parseNamedType n) (Found fun j tr => Derives st lit .type i j [tr]) s := by
  unfold parseNamedType
  refine h.check (h.check ?_)
  split
  · exact h.peekToken Quiet.addError
  · next hk =>
    have hname : st.kindAt i = .identifier ∨ st.kindAt i = .kw_Self := by
      by_contra hne
      obtain ⟨h₁, h₂⟩ := not_or.mp hne
      exact hk (by simp [h₁, h₂])
    refine h.advance (by rcases hname with hk | hk <;> rw [hk] <;> decide) fun t₁ h₁ => ?_
    refine h₁.pathSegments fun r j t₂ h₂ hpath hend => h₂.internText fun id t₃ h₃ _ => ?_
    exact h₃.leaf (by decide) (.namedType hname hpath hend)

theorem Recognition.parseType (h : Recognition st n) (lit : Bool) :
    Recognises st lit .type (parseType n (run n)) := by
  intro i e s hs
  unfold Parser.parseType
  refine hs.branch (fun hopen => ?_) fun _ => hs.branch (fun hopen => ?_) fun _ =>
    hs.branch (fun hword => ?_) fun _ => namedType_found hs
  · unfold parseTupleType
    refine hs.advance (by rw [hopen]; decide) fun t₁ h₁ => ?_
    refine h₁.commaSeparated (h.type lit) fun ys j ts t₂ h₂ hts _ => ?_
    exact h₂.expect (by decide) fun hclose t₃ h₃ =>
      h₃.alloc (by decide) (.tupleType hopen hts hclose)
  · unfold parseArrayType
    refine hs.advance (by rw [hopen]; decide) fun t₁ h₁ => ?_
    refine h₁.find (h.type lit _) fun x j elem t₂ h₂ _ helem => ?_
    refine h₂.expect (by decide) fun hsemi t₃ h₃ => ?_
    refine h₃.find (h.full lit _) fun y k size t₄ h₄ _ hsize => ?_
    exact h₄.expect (by decide) fun hclose t₅ h₅ =>
      h₅.alloc (by decide) (.arrayType hopen helem hsemi hsize hclose)
  · unfold parseTensorType
    refine hs.advance (by rw [hword]; decide) fun t₁ h₁ => ?_
    refine h₁.expect (by decide) fun hopen t₂ h₂ => ?_
    refine h₂.find (h.type lit _) fun x j elem t₃ h₃ _ helem => ?_
    refine h₃.expect (by decide) fun hsemi t₄ h₄ => ?_
    refine h₄.commaSeparated (h.full lit) fun ys k dims t₅ h₅ hdims hlen => ?_
    refine Quiet.requireDim fun hempty => ?_
    have hsome : dims ≠ [] := by
      rintro rfl
      simp [hlen] at hempty
    exact h₅.expect (by decide) fun hclose t₆ h₆ =>
      h₆.alloc (by decide) (.tensorType hword hopen helem hsemi hdims hsome hclose)

/-! ### Patterns -/

theorem Recognition.parseFieldPat (h : Recognition st n) (lit : Bool) :
    Recognises st lit .fieldPat (parseFieldPat (run n)) := by
  intro i e s hs
  unfold Parser.parseFieldPat
  refine hs.unless (fun _ => hs.peekToken Quiet.addError) fun hname => ?_
  refine hs.advance (by rw [hname]; decide) fun t₁ h₁ => h₁.internText fun id t₂ h₂ _ => ?_
  refine h₂.consumed (by decide) (fun hcolon t₃ h₃ => ?_) fun hend => ?_
  · refine h₃.find (h.pat lit _) fun x j p t₄ h₄ _ hpat => Quiet.spanOf fun span => ?_
    exact h₄.alloc (by decide) (.boundFieldPat hname hcolon hpat)
  · exact h₂.leaf (by decide) (.fieldPat hname hend)

instance : Ascends (parseFieldPat (run n)) :=
  ascends_of_leads (precedes_walk.parseFieldPat (run_walk n).toWalkRec)

instance : Ascends (parseTuplePat n (run n) name start) :=
  ascends_of_leads (precedes_walk.parseTuplePat (run_walk n).toWalkRec name start)

instance : Ascends (parseStructPat n (run n) name start) :=
  ascends_of_leads (precedes_walk.parseStructPat (run_walk n).toWalkRec name start)

theorem tuplePat_found {tree : ℕ → List SyntaxTree → SyntaxTree} (h : Recognition st n)
    (hs : AtToken st lit e i s) (hopen : st.kindAt i = .l_paren) {i₀ : ℕ}
    (htree : ∀ k ts, Derives st lit (.commas .pat) (i + 1) k ts → st.kindAt k = .r_paren →
      Derives st lit .pat i₀ (k + 1) [tree k ts]) :
    Quiet (parseTuplePat n (run n) name start) (Found fun j tr => Derives st lit .pat i₀ j [tr]) s := by
  unfold parseTuplePat
  refine hs.advance (by rw [hopen]; decide) fun t₁ h₁ => ?_
  refine h₁.commaSeparated (h.pat lit) fun ys k ts t₂ h₂ hts _ => ?_
  exact h₂.expect (by decide) fun hclose t₃ h₃ => h₃.alloc (by decide) (htree k ts hts hclose)

theorem namePat_found (h : Recognition st n) (hs : AtToken st lit e i s)
    (hname : st.kindAt i = .identifier) :
    Quiet (parseNamePat n (run n) (st.tokenAt i))
      (Found fun j tr => Derives st lit .pat i j [tr]) s := by
  unfold parseNamePat
  refine hs.text ?_
  split
  · next htext =>
    refine hs.advance (by rw [hname]; decide) fun t₁ h₁ => ?_
    exact h₁.leaf (by decide) (.wildcardPat hname htext)
  · next htext =>
    refine hs.advance (by rw [hname]; decide) fun t₁ h₁ => ?_
    refine h₁.pathSegments fun r j t₂ h₂ hpath hsep => h₂.internText fun id t₃ h₃ _ => ?_
    refine h₃.branch (fun hopen => ?_) fun hparen => h₃.branch (fun hopen => ?_) fun hbrace => ?_
    · exact tuplePat_found h h₃ hopen fun k ts hts hclose =>
        .variantPat hname htext hpath hopen hts hclose
    · unfold parseStructPat
      refine h₃.advance (by rw [hopen]; decide) fun t₄ h₄ => ?_
      refine h₄.commaSeparated (h.parseFieldPat lit) fun ys k ts t₅ h₅ hts _ => ?_
      exact h₅.expect (by decide) fun hclose t₆ h₆ =>
        h₆.alloc (by decide) (.structPat hname htext hpath hopen hts hclose)
    · exact h₃.leaf (by decide) (.namePat hname htext hpath ⟨hsep, hparen, hbrace⟩)

theorem Recognition.parsePat (h : Recognition st n) (lit : Bool) :
    Recognises st lit .pat (parsePat n (run n)) := by
  intro i e s hs
  unfold Parser.parsePat
  refine hs.peekToken ?_
  rw [tokenAt_kind]
  split
  · next hname => exact namePat_found h hs hname
  · split
    · next hopen => exact tuplePat_found h hs hopen fun k ts hts hclose => .tuplePat hopen hts hclose
    · split
      · next hlit =>
        unfold parseLiteralPat
        refine hs.advance ?_ fun t₁ h₁ => h₁.internText fun id t₂ h₂ _ => ?_
        · intro hk
          rw [hk] at hlit
          cases hlit
        · exact h₂.leaf (by decide) (.literalPat hlit)
      · unfold parseBadPat
        exact Quiet.addError

/-! ### Generic parameters -/

instance : Ascends (parseBound (run n)) := by
  unfold parseBound
  infer_instance

instance : Ascends (parseGenericParam (run n)) := by
  unfold parseGenericParam
  infer_instance

instance : Ascends (parseGenericList n (run n)) := by
  unfold parseGenericList
  infer_instance

instance : Ascends (parseGenericParams n (run n)) := by
  unfold parseGenericParams
  infer_instance

theorem Recognition.parseGenericParam (h : Recognition st n) (lit : Bool) :
    Recognises st lit .genericParam (parseGenericParam (run n)) := by
  intro i e s hs
  unfold Parser.parseGenericParam
  refine hs.peekToken (hs.unless (fun _ => hs.peekToken Quiet.addError) fun hname => ?_)
  refine hs.advance (by rw [hname]; decide) fun t₁ h₁ => h₁.internText fun id t₂ h₂ _ => ?_
  unfold parseBound
  rw [bind_assoc]
  refine h₂.consume (by decide) (fun hcolon t₃ h₃ => ?_) fun hend => ?_
  · rw [if_pos rfl]
    refine h₃.find (h.type lit _) fun x j type t₄ h₄ _ htype => Quiet.previous fun tok => ?_
    exact h₄.alloc (by decide) (.boundedParam hname hcolon htype)
  · rw [if_neg Bool.false_ne_true, pure_bind]
    exact Quiet.previous fun tok => h₂.alloc (by decide) (.genericParam hname hend)

theorem genericParams_found (h : Recognition st n) (hs : AtToken st lit e i s)
    (hopen : st.kindAt i = .less) :
    Quiet (parseGenericParams n (run n)) (Found fun j tr => Derives st lit .generics i j [tr]) s := by
  unfold parseGenericParams
  refine hs.unless (fun hk => absurd hopen hk) fun _ => ?_
  refine hs.advance (by rw [hopen]; decide) fun t₁ h₁ => ?_
  have hlist : Quiet (parseGenericList n (run n)) (FoundList (.commas .genericParam) st lit (i + 1) [])
      t₁ :=
    first_finds (h.parseGenericParam lit) h₁ (fun _ => .noCommas) fun _ _ _ _ _ htr hmore =>
      hmore.commas htr
  refine h₁.list hlist fun ys j ts t₂ h₂ hts _ => ?_
  exact h₂.expect (by decide) fun hclose t₃ h₃ =>
    h₃.alloc (by decide) (.generics hopen hts hclose)

theorem AtToken.generics {f : NodeIndex → ParserM α} [∀ x, Ascends (f x)]
    (hs : AtToken st lit e i s) (h : Recognition st n)
    (hf : ∀ x j gs t, AtToken st lit e j t → Derives st lit .generics i j gs → Quiet (f x) Q t) :
    Quiet (parseGenericParams n (run n) >>= f) Q s := by
  by_cases hopen : st.kindAt i = .less
  · exact hs.call (genericParams_found h hs hopen) fun x j t ht hj hfound => by
      obtain ⟨-, tr, htr⟩ := hfound
      exact hf x j [tr] t ht (hj ▸ htr)
  · unfold parseGenericParams
    rw [bind_assoc]
    refine hs.check ?_
    rw [decide_eq_false hopen, Bool.not_false, if_pos rfl, pure_bind]
    exact hf _ _ _ s hs (.noGenerics hopen)

end Eter.Parser
