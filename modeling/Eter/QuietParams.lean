import Eter.QuietOperators
import Eter.GrammarParams

/-!
# Parameters, fields, variants, and functions are found
-/

namespace Eter.Parser
open Stateful NodePool Diag

variable {α : Type} {st : TokenStream} {lit b : Bool} {s t : PState} {n e i j k flags : ℕ}
  {Q : α → PState → Prop} {x : NodeIndex} {xs : List NodeIndex} {docs : List SyntaxTree}
  {id : InternedStr} {name : Bytes}

/-! ### Parameters -/

theorem AtToken.getText {f : Bytes → ParserM α} (hid : s.interner.get? id = some name)
    (hf : Quiet (f name) Q s) : Quiet (Parser.getText id >>= f) Q s := by
  refine Silent.read ?_ hf
  unfold Parser.getText
  rw [hid]

instance : Ascends atGap := by
  unfold atGap
  infer_instance

instance : Ascends synthesiseSelf := by
  unfold synthesiseSelf
  infer_instance

instance : Ascends (isSelfParam id) := by
  unfold isSelfParam
  infer_instance

instance (gap : Bool) : Ascends (markGap gap) := by
  unfold markGap
  infer_instance

instance : Ascends (parseParamType (run n) id) := by
  unfold parseParamType
  infer_instance

instance : Ascends (parseParam (run n)) := by
  unfold parseParam
  infer_instance

theorem markGap_finds {gap : Bool} (hs : AtToken st lit e i s) :
    Quiet (markGap gap) (fun _ t => AtToken st lit e i t) s := by
  cases gap with
  | false => exact Silent.pure hs
  | true =>
    rintro _ _ ⟨⟩ _
    exact ⟨hs.tokens, hs.source, hs.lit, hs.cursor, hs.noise⟩

/-- What is behind the name of a parameter: a type, or nothing behind `self`. -/
def ParamRest (st : TokenStream) (lit : Bool) (j k : ℕ) (tr : SyntaxTree) : Prop :=
  st.kindAt (j + 1) = .colon ∧ Derives st lit .type (j + 2) k [tr] ∨
    k = j + 1 ∧ st.textAt j = ascii "self" ∧
      (st.kindAt (j + 1) = .r_paren ∨ st.kindAt (j + 1) = .comma)

theorem paramType_found (h : Recognition st n) (hs : AtToken st lit e (j + 1) s)
    (hid : s.interner.get? id = some (st.textAt j)) :
    Quiet (parseParamType (run n) id) (Found (ParamRest st lit j)) s := by
  unfold parseParamType isSelfParam
  rw [bind_assoc]
  refine AtToken.getText hid ?_
  rw [bind_assoc]
  refine hs.check ?_
  rw [bind_assoc]
  refine hs.check ?_
  rw [bind_assoc]
  refine hs.check ?_
  rw [pure_bind]
  split
  · next hself =>
    simp only [Bool.and_eq_true, Bool.or_eq_true, beq_iff_eq, decide_eq_true_eq] at hself
    obtain ⟨⟨hname, -⟩, hend⟩ := hself
    have hrest : ParamRest st lit j (j + 1) .missing := .inr ⟨rfl, hname, hend⟩
    unfold synthesiseSelf
    exact Quiet.previous fun _ => hs.intern fun _ t₁ h₁ _ => h₁.leaf (by decide) hrest
  · refine hs.expect (by decide) fun hcolon t₁ h₁ => (h.type lit _ e t₁ h₁).mono fun x t₂ hx => ?_
    obtain ⟨hproper, tr, htr⟩ := hx
    exact ⟨hproper, tr, .inl ⟨hcolon, htr⟩⟩

theorem Recognition.parseParam (h : Recognition st n) (lit : Bool) :
    Recognises st lit .param (parseParam (run n)) := by
  intro i e s hs
  unfold Parser.parseParam
  refine Quiet.reads (fun _ _ hm => by cases hm; rfl) fun gap => hs.peekToken ?_
  refine hs.parseRegime fun r j t₁ h₁ hregime => h₁.expectName fun hname id t₂ h₂ hid => ?_
  refine h₂.call (paramType_found h h₂ hid) fun x k t₃ h₃ hk hfound => ?_
  obtain ⟨-, tr, hrest⟩ := hfound
  subst hk
  refine h₃.call (markGap_finds h₃) fun _ _ t₄ _ _ h₄ => Quiet.previous fun _ => ?_
  rcases hrest with ⟨hcolon, htype⟩ | ⟨hk, hself, hend⟩
  · exact h₄.alloc (by decide) (.param hregime hname hcolon htype)
  · rw [hk] at h₄
    exact h₄.alloc (by decide) (.selfParam hregime hname hself hend)

instance : Ascends (parseParams n (run n)) := by
  unfold parseParams
  infer_instance

instance : Ascends (parseParamList n (run n)) := by
  unfold parseParamList
  infer_instance

theorem Recognition.parseParamList (h : Recognition st n) (lit : Bool) :
    Recognises st lit .params (parseParamList n (run n)) := by
  intro i e s hs
  unfold Parser.parseParamList
  refine hs.expect (by decide) fun hopen t₁ h₁ => ?_
  have hlist : Quiet (parseParams n (run n)) (FoundList (.list .param) st lit (i + 1) []) t₁ :=
    first_finds (h.parseParam lit) h₁ (fun _ => .noList) fun _ _ _ _ _ htr hmore => hmore.list htr
  refine h₁.list hlist fun ys j ts t₂ h₂ hts _ => ?_
  exact h₂.expect (by decide) fun hclose t₃ h₃ => h₃.alloc (by decide) (.params hopen hts hclose)

/-! ### Fields and variants -/

instance : Ascends (parseStructField (run n)) :=
  ascends_of_leads (precedes_walk.parseStructField (run_walk n).toWalkRec)

theorem Recognition.parseStructField (h : Recognition st n) (lit : Bool) :
    Recognises st lit .structField (parseStructField (run n)) := by
  intro i e s hs
  unfold Parser.parseStructField
  refine hs.peekToken (hs.parseRegime fun r j t₁ h₁ hregime => ?_)
  refine h₁.unless (fun _ => h₁.peekToken (h₁.peek Quiet.report)) fun hname => ?_
  refine h₁.advance (by rw [hname]; decide) fun t₂ h₂ => h₂.internText fun id t₃ h₃ _ => ?_
  unfold parseStructField.fieldColon
  rw [bind_assoc]
  refine h₃.consume (by decide) (fun hcolon t₄ h₄ => ?_) fun _ => ?_
  · rw [if_pos rfl, pure_bind, if_pos rfl]
    refine h₄.find (h.type lit _) fun x k type t₅ h₅ _ htype => Quiet.previous fun _ => ?_
    exact h₅.alloc (by decide) (.structField hregime hname hcolon htype)
  · rw [if_neg Bool.false_ne_true, bind_assoc]
    refine h₃.peekToken ?_
    rw [bind_assoc]
    exact Quiet.report

instance : Ascends (parseEnumVariant n (run n)) :=
  ascends_of_leads (precedes_walk.parseEnumVariant (run_walk n).toWalkRec)

theorem Recognition.parseEnumVariant (h : Recognition st n) (lit : Bool) :
    Recognises st lit .variant (parseEnumVariant n (run n)) := by
  intro i e s hs
  unfold Parser.parseEnumVariant
  refine hs.peekToken (hs.unless (fun _ => hs.peekToken (hs.peek Quiet.report)) fun hname => ?_)
  refine hs.advance (by rw [hname]; decide) fun t₁ h₁ => h₁.internText fun id t₂ h₂ _ => ?_
  refine h₂.consumed (by decide) (fun hopen t₃ h₃ => ?_) fun hparen => ?_
  · unfold parseTupleVariant
    refine h₃.commaSeparated (h.type lit) fun ys j ts t₄ h₄ hts _ => ?_
    exact h₄.expect (by decide) fun hclose t₅ h₅ =>
      h₅.alloc (by decide) (.tupleVariant hname hopen hts hclose)
  refine h₂.consumed (by decide) (fun hopen t₃ h₃ => ?_) fun hbrace => ?_
  · unfold parseStructVariant
    refine h₃.commaSeparated (h.parseStructField lit) fun ys j ts t₄ h₄ hts _ => ?_
    exact h₄.expect (by decide) fun hclose t₅ h₅ =>
      h₅.alloc (by decide) (.structVariant hname hopen hts hclose)
  refine h₂.consumed (by decide) (fun heq t₃ h₃ => ?_) fun hend => ?_
  · refine h₃.find (h.full lit _) fun x j tr t₄ h₄ _ htr => Quiet.previous fun _ => ?_
    exact h₄.alloc (by decide) (.valuedVariant hname heq htr)
  · exact Quiet.previous fun _ => h₂.leaf (by decide) (.unitVariant hname ⟨hparen, hbrace, hend⟩)

/-! ### Functions -/

instance : Ascends (consumeUnsafe flags) := by
  unfold consumeUnsafe
  infer_instance

instance : Ascends reportArrow := by
  unfold reportArrow
  infer_instance

instance : Ascends (parseReturnType (run n)) := by
  unfold parseReturnType
  infer_instance

instance : Ascends (parseFnBody (run n) b) := by
  unfold parseFnBody
  infer_instance

instance : Ascends (parseFnDecl n (run n) xs flags b) :=
  ascends_of_leads (precedes_walk.parseFnDecl (run_walk n).toWalkRec xs flags b)

theorem consumeUnsafe_finds (hs : AtToken st lit e i s) :
    Quiet (consumeUnsafe flags) (fun _ t => ∃ j u, AtToken st lit e j t ∧
      Flagged st .kw_unsafe_ UnsafeFlag i j u) s := by
  unfold consumeUnsafe
  refine hs.consumed (by decide) (fun hk t₁ h₁ => ?_) fun _ => ?_
  · exact Silent.pure ⟨_, _, h₁, .present hk⟩
  · exact Silent.pure ⟨_, _, hs, .absent⟩

theorem returnType_found (h : Recognition st n) (hs : AtToken st lit e i s) :
    Quiet (parseReturnType (run n)) (fun _ t => ∃ ts,
      Derives st lit (.after .colon .type) i t.stream.cursor ts) s := by
  unfold parseReturnType
  refine hs.consumed (by decide) (fun hmark t₁ h₁ => ?_) fun hend => ?_
  · refine h₁.find (h.type lit _) fun x j tr t₂ h₂ _ htr => Silent.pure ⟨[tr], ?_⟩
    rw [h₂.cursor]
    exact .present hmark (by decide) htr
  · refine hs.branch (fun _ => ?_) fun _ => Silent.pure ⟨[], by rw [hs.cursor]; exact .absent hend⟩
    unfold reportArrow
    rw [bind_assoc]
    refine hs.peekToken ?_
    rw [bind_assoc]
    exact Quiet.report

/-- A function without a body has none in the tree. -/
theorem fnBody_found (h : Recognition st n) (hs : AtToken st lit e i s) :
    Quiet (parseFnBody (run n) b) (fun _ t => ∃ tr, Derives st lit (.body b) i t.stream.cursor [tr])
      s := by
  unfold parseFnBody
  cases b with
  | true =>
    exact (h.block lit i e s hs).mono fun _ _ hx => hx.2.imp fun _ htr => .blockBody htr
  | false =>
    rw [if_neg Bool.false_ne_true]
    refine hs.expect (by decide) fun hsemi t₁ h₁ => Silent.pure ⟨.missing, ?_⟩
    rw [h₁.cursor]
    exact .noBody hsemi

theorem Recognition.parseFnDecl (h : Recognition st n) (lit : Bool) (docs : List SyntaxTree)
    (u : ℕ) : Recognises st lit (.fn docs u b) (parseFnDecl n (run n) xs flags b) := by
  intro i e s hs
  unfold Parser.parseFnDecl parseFnRest
  refine hs.peekToken (hs.call (consumeUnsafe_finds hs) fun _ _ t₁ _ _ hflag => ?_)
  obtain ⟨j, v, h₁, hflag⟩ := hflag
  refine h₁.expect (by decide) fun hword t₂ h₂ => h₂.parseRegime fun r k t₃ h₃ hregime => ?_
  refine h₃.expectName fun hname id t₄ h₄ _ => h₄.generics h fun y l gs t₅ h₅ hgs => ?_
  refine h₅.find (h.parseParamList lit _) fun z m ps t₆ h₆ _ hps => ?_
  refine h₆.call (returnType_found h h₆) fun zs o t₇ h₇ ho hreturn => ?_
  obtain ⟨rs, hrs⟩ := hreturn
  subst ho
  refine h₇.call (fnBody_found h h₇) fun w q t₈ h₈ hq hbody => ?_
  obtain ⟨body, hbody⟩ := hbody
  subst hq
  exact Quiet.previous fun _ => h₈.alloc (by decide)
    (.fn hflag hword hregime hname hgs hps hrs hbody)

end Eter.Parser
