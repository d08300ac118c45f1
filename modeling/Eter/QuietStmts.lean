import Eter.QuietExprs
import Eter.GrammarStmts

/-!
# Blocks and statements are found
-/

namespace Eter.Parser
open Stateful NodePool Diag

variable {α : Type} {st : TokenStream} {lit b : Bool} {s t : PState} {n e i j k : ℕ}
  {Q : α → PState → Prop} {x : NodeIndex} {xs : List NodeIndex} {word : Token.Kind} {ph : Phrase}
  {m : ParserM NodeIndex} {context noteText : String}

/-! ### Options -/

/-- The nodes of an option are no errors. -/
def FoundOption (ph : Phrase) (st : TokenStream) (lit : Bool) (i : ℕ) (ys : List NodeIndex)
    (t : PState) : Prop :=
  (∀ y ∈ ys, t.Proper y) ∧ ∃ ts, Derives st lit ph i t.stream.cursor ts

theorem option_found [Ascends m] (hs : AtToken st lit e i s) (hword : word ≠ .eof)
    (hm : Recognises st lit ph m) : Quiet (do if ← consume word then return [← m] else pure [])
      (FoundOption (.after word ph) st lit i) s := by
  refine hs.consumed hword (fun hmark t₁ h₁ => ?_) fun hend => ?_
  · refine h₁.find (hm _) fun x j tr t₂ h₂ hx htr => Silent.pure ⟨by simpa using hx, [tr], ?_⟩
    rw [h₂.cursor]
    exact .present hmark hword htr
  · refine Silent.pure ⟨by simp, [], ?_⟩
    rw [hs.cursor]
    exact .absent hend

instance : Ascends (parseLetType (run n)) := by
  unfold parseLetType
  infer_instance

instance : Ascends (parseLetInit (run n)) := by
  unfold parseLetInit
  infer_instance

instance : Ascends synchronize := ascends_of_leads precedes_walk.synchronize

instance : Ascends (closeLet xs) := ascends_of_leads (precedes_walk.closeLet xs)

instance (atEnd : Bool) : Ascends (requireSemi atEnd context noteText) :=
  ascends_of_leads (precedes_walk.requireSemi atEnd context noteText)

/-! ### Ends of statements -/

theorem requireSemi_finds {atEnd : Bool} (hs : AtToken st lit e i s) :
    Quiet (requireSemi atEnd context noteText)
      (fun _ t => st.kindAt i = .semi ∧ AtToken st lit e (i + 1) t) s := by
  unfold requireSemi
  refine hs.consumed (by decide) (fun hk t₁ h₁ => Silent.pure ⟨hk, h₁⟩) fun _ => ?_
  exact Quiet.previous fun _ => hs.peekToken Quiet.reports

theorem closeLet_finds (hs : AtToken st lit e i s) (hxs : ∀ x ∈ xs, s.Proper x) :
    Quiet (closeLet xs) (fun _ t => st.kindAt i = .semi ∧ AtToken st lit e (i + 1) t) s := by
  have hends : endsInError xs s = .ok (false, s) := by
    unfold endsInError
    cases hlast : xs.getLast? with
    | none => rfl
    | some x =>
      obtain ⟨d, hd, hkind⟩ := hxs x (List.mem_of_getLast? hlast)
      have hread : kindOf x s = .ok (d.kind, s) := by
        unfold kindOf
        rw [hd]
      show (kindOf x >>= fun kind => pure (decide (kind = .Error))) s = _
      rw [bind_of_ok hread, decide_eq_false hkind]
      rfl
  unfold closeLet
  refine Silent.read hends ?_
  rw [if_neg Bool.false_ne_true]
  exact requireSemi_finds hs

/-! ### Blocks -/

theorem Recognition.parseBlockExpr (h : Recognition st n) (lit : Bool) :
    Recognises st lit .block (parseBlockExpr n (run n)) := by
  intro i e s hs
  unfold Parser.parseBlockExpr
  refine hs.expect (by decide) fun hopen t₁ h₁ => ?_
  refine h₁.parseUntil (h.stmt lit) fun ys j ts t₂ h₂ hts => ?_
  exact h₂.expect (by decide) fun hclose t₃ h₃ => h₃.alloc (by decide) (.block hopen hts hclose)

instance : Ascends openUnsafe := ascends_of_leads precedes_walk.openUnsafe

theorem openUnsafe_finds (hs : AtToken st lit e i s) :
    Quiet openUnsafe (fun _ t => st.kindAt i = .l_brace ∧ AtToken st lit e (i + 1) t) s := by
  unfold openUnsafe
  refine hs.consumed (by decide) (fun hk t₁ h₁ => Silent.pure ⟨hk, h₁⟩) fun _ => ?_
  refine Quiet.behind fun _ t₁ => Quiet.behind fun _ t₂ => ?_
  exact Quiet.reads (fun _ _ hm => by cases hm; rfl) fun _ => Quiet.reports

theorem Recognition.parseUnsafeBlock (h : Recognition st n) (lit : Bool) :
    Recognises st lit .unsafeBlock (parseUnsafeBlock n (run n)) := by
  intro i e s hs
  unfold Parser.parseUnsafeBlock
  refine hs.expect (by decide) fun hword t₁ h₁ => ?_
  refine h₁.call (openUnsafe_finds h₁) fun _ _ t₂ _ _ hopen => ?_
  refine hopen.2.parseUntil (h.stmt lit) fun ys j ts t₃ h₃ hts => ?_
  exact h₃.expect (by decide) fun hclose t₄ h₄ =>
    h₄.alloc (by decide) (.unsafeBlock hword hopen.1 hts hclose)

/-! ### Conditions and loops -/

instance : Ascends (parseHeaderExpr (run n)) := by
  unfold parseHeaderExpr
  infer_instance

theorem AtToken.header {f : NodeIndex → ParserM α} [∀ x, Ascends (f x)] (hs : AtToken st lit e i s)
    (h : Recognition st n) (hf : ∀ x j tr t, AtToken st lit e j t →
      Derives st false .full i j [tr] → Quiet (f x) Q t) : Quiet (parseHeaderExpr (run n) >>= f) Q s :=
  hs.call (hs.inside fun t ht => h.full false i e t ht) fun x j t ht hj hfound => by
    obtain ⟨-, tr, htr⟩ := hfound
    exact hf x j tr t ht (hj ▸ htr)

instance : Ascends (parseElse (run n)) :=
  ascends_of_leads (precedes_walk.parseElse (run_walk n).toWalkRec)

theorem else_found (h : Recognition st n) (hs : AtToken st lit e i s) :
    Quiet (parseElse (run n)) (fun _ t => ∃ ts,
      Derives st lit (.after .kw_else .branch) i t.stream.cursor ts) s := by
  unfold parseElse
  refine hs.branch (fun hmark => ?_) fun hend => Silent.pure ⟨[], by rw [hs.cursor]; exact .absent hend⟩
  refine hs.advance (by rw [hmark]; decide) fun t₁ h₁ => h₁.branch (fun _ => ?_) fun _ => ?_
  · refine h₁.find (h.ifExpr lit _) fun x j tr t₂ h₂ _ htr => Silent.pure ⟨[tr], ?_⟩
    rw [h₂.cursor]
    exact .present hmark (by decide) (.ifBranch htr)
  · refine h₁.find (h.block lit _) fun x j tr t₂ h₂ _ htr => Silent.pure ⟨[tr], ?_⟩
    rw [h₂.cursor]
    exact .present hmark (by decide) (.blockBranch htr)

theorem Recognition.parseIfExpr (h : Recognition st n) (lit : Bool) :
    Recognises st lit .ifExpr (parseIfExpr (run n)) := by
  intro i e s hs
  unfold Parser.parseIfExpr
  refine hs.expect (by decide) fun hword t₁ h₁ => h₁.header h fun x j cond t₂ h₂ hcond => ?_
  refine h₂.find (h.block lit _) fun y k body t₃ h₃ _ hbody => ?_
  refine h₃.call (else_found h h₃) fun zs l t₄ h₄ hl helse => ?_
  obtain ⟨ts, hts⟩ := helse
  subst hl
  exact Quiet.previous fun _ => h₄.alloc (by decide) (.ifExpr hword hcond hbody hts)

theorem Recognition.parseWhileStmt (h : Recognition st n) (lit : Bool) :
    Recognises st lit .whileStmt (parseWhileStmt (run n)) := by
  intro i e s hs
  unfold Parser.parseWhileStmt
  refine hs.expect (by decide) fun hword t₁ h₁ => h₁.header h fun x j cond t₂ h₂ hcond => ?_
  refine h₂.find (h.block lit _) fun y k body t₃ h₃ _ hbody => Quiet.previous fun _ => ?_
  exact h₃.alloc (by decide) (.whileStmt hword hcond hbody)

/-! ### `match` -/

instance : Ascends closeArm := by
  unfold closeArm
  infer_instance

theorem closeArm_finds (hs : AtToken st lit e i s) :
    Quiet closeArm (fun _ t => AtToken st lit e (st.armEnd i) t) s := by
  unfold closeArm TokenStream.armEnd
  refine hs.consumed (by decide) (fun hk t₁ h₁ => ?_) fun hk => ?_
  · rw [if_pos (.inl hk)]
    exact Silent.pure h₁
  · refine hs.consume (by decide) (fun hk' t₁ h₁ => ?_) fun hk' => ?_
    · rw [if_pos (.inr hk')]
      exact Silent.pure h₁
    · rw [if_neg (by simp [hk, hk'])]
      exact Silent.pure hs

instance : Ascends (parseMatchArm (run n)) := by
  unfold parseMatchArm
  infer_instance

theorem Recognition.parseMatchArm (h : Recognition st n) (lit : Bool) :
    Recognises st lit .arm (parseMatchArm (run n)) := by
  intro i e s hs
  unfold Parser.parseMatchArm
  refine hs.find (h.pat lit _) fun x j p t₁ h₁ _ hpat => h₁.expect (by decide) fun harrow t₂ h₂ => ?_
  refine h₂.find (h.full lit _) fun y k value t₃ h₃ _ hvalue => ?_
  refine h₃.call (closeArm_finds h₃) fun _ _ t₄ _ _ h₄ => ?_
  exact Quiet.spanOf fun _ => Quiet.spanOf fun _ => h₄.alloc (by decide)
    (.arm hpat harrow hvalue rfl)

theorem Recognition.parseMatchExpr (h : Recognition st n) (lit : Bool) :
    Recognises st lit .matchExpr (parseMatchExpr n (run n)) := by
  intro i e s hs
  unfold Parser.parseMatchExpr
  refine hs.expect (by decide) fun hword t₁ h₁ => h₁.header h fun x j tr t₂ h₂ htr => ?_
  refine h₂.expect (by decide) fun hopen t₃ h₃ => ?_
  refine h₃.parseUntil (h.parseMatchArm lit) fun ys k ts t₄ h₄ hts => ?_
  exact h₄.expect (by decide) fun hclose t₅ h₅ =>
    h₅.alloc (by decide) (.matchExpr hword htr hopen hts hclose)

/-! ### Statements -/

theorem exprStmt_found (h : Recognition st n) (hs : AtToken st lit e i s)
    (hstart : startsExprStmt (st.kindAt i) = true) :
    Quiet (parseExprStmt (run n)) (Found fun j tr => Derives st lit .stmt i j [tr]) s := by
  unfold parseExprStmt
  refine hs.find (h.full lit _) fun x j tr t₁ h₁ hx htr => Quiet.kindOf hx fun kind hkind => ?_
  rw [if_neg hkind]
  refine Quiet.keep hx ((requireSemi_finds h₁).mono ?_)
  rintro _ t₂ ⟨hsemi, h₂⟩
  rw [h₂.cursor]
  exact ⟨tr, .exprStmt hstart htr hsemi⟩

theorem letStmt_found (h : Recognition st n) (hs : AtToken st lit e i s) :
    Quiet (parseLetStmt (run n)) (Found fun j tr => Derives st lit .stmt i j [tr]) s := by
  unfold parseLetStmt
  refine hs.expect (by decide) fun hword t₁ h₁ => h₁.parseRegime fun r j t₂ h₂ hregime => ?_
  refine h₂.expectName fun hname id t₃ h₃ _ => ?_
  refine Silent.bind noise_mono (option_found h₃ (by decide) (h.type lit)) ?_
  rintro ys t₄ hle₄ hnoise₄ ⟨hys, ts, hts⟩
  have h₄ := h₃.later hle₄ hnoise₄
  refine Silent.bind noise_mono (option_found h₄ (by decide) (h.full lit)) ?_
  rintro zs t₅ hle₅ hnoise₅ ⟨hzs, es, hes⟩
  have h₅ := h₄.later hle₅ hnoise₅
  have hall : ∀ x ∈ ys ++ zs, t₅.Proper x := by
    intro x hx
    rcases List.mem_append.mp hx with hx | hx
    · exact (hys x hx).later hle₅
    · exact hzs x hx
  refine h₅.call (closeLet_finds h₅ hall) fun _ _ t₆ _ _ hclose => Quiet.previous fun _ => ?_
  exact hclose.2.alloc (by decide) (.letStmt hword hregime hname hts hes hclose.1)

theorem forStmt_found (h : Recognition st n) (hs : AtToken st lit e i s) :
    Quiet (parseForStmt (run n)) (Found fun j tr => Derives st lit .stmt i j [tr]) s := by
  unfold parseForStmt
  refine hs.expect (by decide) fun hword t₁ h₁ => h₁.parseRegime fun r j t₂ h₂ hregime => ?_
  refine h₂.expectName fun hname id t₃ h₃ _ => h₃.expect (by decide) fun hin t₄ h₄ => ?_
  refine h₄.header h fun x k tr t₅ h₅ htr => ?_
  refine h₅.find (h.block lit _) fun y l body t₆ h₆ _ hbody => Quiet.spanOf fun _ => ?_
  exact h₆.alloc (by decide) (.forStmt hword hregime hname hin htr hbody)

theorem retStmt_found (h : Recognition st n) (hs : AtToken st lit e i s) :
    Quiet (parseRetStmt (run n)) (Found fun j tr => Derives st lit .stmt i j [tr]) s := by
  unfold parseRetStmt
  refine hs.expect (by decide) fun hword t₁ h₁ => ?_
  refine h₁.find (h.full lit _) fun x j tr t₂ h₂ _ htr => ?_
  exact h₂.expect (by decide) fun hsemi t₃ h₃ => h₃.alloc (by decide) (.retStmt hword htr hsemi)

theorem jump_found {kind : NodeKind} (hs : AtToken st lit e i s) (hk : st.kindAt i ≠ .eof)
    (hkind : kind ≠ .Error) (hder : st.kindAt (i + 1) = .semi →
      Derives st lit .stmt i (i + 2) [.node kind 0 none 0 []]) :
    Quiet (parseJumpStmt kind) (Found fun j tr => Derives st lit .stmt i j [tr]) s := by
  unfold parseJumpStmt
  refine hs.advance hk fun t₁ h₁ => ?_
  exact h₁.expect (by decide) fun hsemi t₂ h₂ => h₂.leaf hkind (hder hsemi)

/-- A phrase that is another one. -/
theorem Recognises.as {ph' : Phrase} (hm : Recognises st lit ph m) (hs : AtToken st lit e i s)
    (hder : ∀ j tr, Derives st lit ph i j [tr] → Derives st lit ph' i j [tr]) :
    Quiet m (Found fun j tr => Derives st lit ph' i j [tr]) s :=
  (hm i e s hs).mono fun _ _ hfound => ⟨hfound.1, hfound.2.imp fun _ htr => hder _ _ htr⟩

theorem Recognition.parseStmt (h : Recognition st n) (lit : Bool) :
    Recognises st lit .stmt (parseStmt n (run n)) := by
  intro i e s hs
  unfold Parser.parseStmt
  refine hs.peekToken ?_
  rw [tokenAt_kind]
  split
  · next hstart => exact exprStmt_found h hs hstart
  · split
    · exact letStmt_found h hs
    · exact (h.ifExpr lit).as hs fun _ _ => .ifStmt
    · exact forStmt_found h hs
    · exact (h.parseWhileStmt lit).as hs fun _ _ => .loopStmt
    · exact (h.block lit).as hs fun _ _ => .blockStmt
    · exact retStmt_found h hs
    · next hk => exact jump_found hs (by rw [hk]; decide) (by decide) (.breakStmt hk)
    · next hk => exact jump_found hs (by rw [hk]; decide) (by decide) (.continueStmt hk)
    · exact (h.parseUnsafeBlock lit).as hs fun _ _ => .unsafeStmt
    · unfold parseBadStmt
      exact Quiet.addError

end Eter.Parser
