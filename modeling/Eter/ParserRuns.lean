import Eter.DeclarationSteps

/-!
# Runs of the parser

By induction on the levels of recursion, every production keeps the invariant, and so does a whole
run, which ends at the end of the file and holds nothing but the root.
-/

namespace Eter.Parser
open Stateful Brackets Layout

variable {w : Watch} {b e q n : ℕ} {st : List Bracket} {hs : Held} {s : PState}

theorem run_recurses (w : Watch) (n : ℕ) : Recurses w n (run n) := by
  induction n with
  | zero => constructor <;> intros <;> omega
  | succ n ih =>
    refine ⟨?_, ?_, ?_, ?_, ?_, ?_, ?_, ?_, ?_, ?_⟩
    · intro b m hm hn b' hb e q st hs s h
      exact (parseExpr_spec ih (by omega) hm h).mono fun _ _ h' => h'.1
    · intro b m hm hn b' hb e q st hs s h hk
      exact (parseExpr_spec ih (by omega) hm h).mono fun _ _ h' => h'.2 hk
    · intro b hn b' hb e q st hs s h
      exact parseType_spec ih (by omega) h
    · intro b hn b' hb e q st hs s h
      exact (parsePat_spec ih (by omega) h).mono fun _ _ h' => h'.1
    · intro b hn b' hb e q st hs s h hk
      exact (parsePat_spec ih (by omega) h).mono fun _ _ h' => h'.2 hk
    · intro b hn b' hb e q st hs s h hk
      exact parseStmt_spec ih (by omega) h hk
    · intro b hn b' hb e q st hs s h
      exact parseBlockExpr_spec ih (by omega) h
    · intro b hn b' hb e q st hs s h hk
      exact parseBlockExpr_moves ih (by omega) h hk
    · intro b hn b' hb e q st hs s h hk
      exact parseIfExpr_spec ih (by omega) h hk
    · intro b hn b' hb e q st hs s h hk
      exact parseTopLevelDecl_spec ih (by omega) h hk

theorem sourceTurn_spec {rec : Rec} (hrec : Recurses w n rec) (hn : 4 * b + 5 ≤ n)
    {children acc : List NodeIndex} {v : ℕ} (h : Appended w b e q st hs .decl children v acc s) :
    Yields (sourceTurn rec acc) (fun r s' => r.Leads
      (fun acc' => ∃ v' < v, Appended w b e q st hs .decl children v' acc' s')
      (fun acc' => Collected w b e q st hs .decl children acc' s' ∧ s'.stream.atEof = true)) s := by
  obtain ⟨hv, es, hacc, h⟩ := h
  unfold sourceTurn
  refine Yields.read rfl ?_
  split_ifs with heof
  · exact Yields.pure ⟨⟨es, hacc, h.more hv⟩, heof⟩
  · have hne := peek_ne_eof (Bool.eq_false_iff.mpr heof)
    have hpos := h.pos hne
    refine ((hrec.topLevelDecl (by omega)).yields h hne).bind fun decl s₁ h₁ => ?_
    exact Yields.pure ⟨v - 1, by omega, Appended.push hacc (by omega) h₁⟩

theorem decls_spec (hn : 4 * b + 5 ≤ n) (h : Holds w b e q st hs s) (children : List NodeIndex) :
    Yields (iterate (sourceTurn (run n)) n children) (fun acc s' =>
      Collected w b e q st hs .decl children acc s' ∧ s'.stream.atEof = true) s :=
  Yields.iterate (I := Appended w b e q st hs .decl children)
    (fun _ _ _ hI => sourceTurn_spec (run_recurses w n) hn hI) (by omega)
    (Appended.start h children)

theorem alloc_last {kind : NodeKind} {span : Span} {kids : List NodeIndex} {payload flags : ℕ}
    (s : PState) :
    Yields (alloc kind span kids payload flags)
      (fun i s' => s'.stream = s.stream ∧ i = some (s'.pool.nodes.length - 1)) s :=
  ⟨_, _, rfl, rfl, by simp [NodePool.alloc]⟩

theorem parseSourceFile_spec (hn : 4 * b + 5 ≤ n) (h : Holds w b e q st [] s) :
    Yields (parseSourceFile n) (fun root s' => Holds w b e q st [(root, .sourceFile)] s' ∧
      s'.stream.atEof = true ∧ root = some (s'.pool.nodes.length - 1)) s := by
  unfold parseSourceFile
  refine Yields.read rfl ((h.parseFileDocComments (by omega)).bind fun docs s₁ h₁ => ?_)
  refine (decls_spec hn h₁ docs).bind ?_
  rintro _ s₂ ⟨⟨decls, rfl, h₂⟩, heof⟩
  refine Yields.read rfl ?_
  refine (Yields.and (P := fun root s' => Holds w b e q st ([] ++ [(root, .sourceFile)]) s') ?_
    (alloc_last s₂)).mono fun root s' ⟨h', hs', hroot⟩ => ⟨h', hs' ▸ heof, hroot⟩
  exact h₂.allocPlain (holding .fileDoc docs ++ holding .decl decls) (by simp) rfl (by simp)
    (.many (fun _ => cat_of_mem_holding) (fits_holding decls)) rfl

/-- A depth of recursion that suffices for every stream of the given tokens. -/
def enough (tokens : List Token) : ℕ := 4 * tokens.length + 5

variable {tokens : List Token} {lexErrors : List LexerError} {source : Bytes}
  {interner : StringInterner}

theorem initialState_holds (mode : Mode) :
    Holds ⟨mode, tokens, 0⟩ tokens.length 0 0 [] []
      (initialState (.fresh tokens lexErrors source) interner) where
  tokens := rfl
  start := le_rfl
  inside := Nat.zero_le _
  budget := by simp
  errors := Nat.zero_le _
  strays := Nat.zero_le _
  nested := Or.inr (by cases mode <;> rfl)
  tree := ⟨[sentinel], poolOf_sentinel.symm, Grown.new⟩

/-- A run with enough depth succeeds; at its end only the root is held. -/
theorem parse_spec (mode : Mode) (lexErrors : List LexerError) (source : Bytes)
    (interner : StringInterner) (hn : enough tokens ≤ n) :
    ∃ r s, parse n (.fresh tokens lexErrors source) interner = .ok (r, s) ∧
      s.stream.atEof = true ∧ r.pool = s.pool ∧ r.errors = s.errors ∧
      r.root = some (s.pool.nodes.length - 1) ∧
      Holds ⟨mode, tokens, 0⟩ tokens.length 0 0 [] [(r.root, .sourceFile)] s := by
  have hinit : Holds ⟨mode, tokens, 0⟩ tokens.length 0 0 [] []
      (initialState (.fresh tokens lexErrors source) interner) := initialState_holds mode
  obtain ⟨root, s, hs, h, heof, hroot⟩ := parseSourceFile_spec hn hinit
  refine ⟨⟨s.pool, root, s.errors⟩, s, ?_, heof, rfl, rfl, hroot, h⟩
  unfold parse
  rw [hs]

end Eter.Parser
