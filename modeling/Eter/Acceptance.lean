import Eter.ParserRuns

/-!
# Termination and acceptance

The parser always comes to the end of the file, and when it reports no error the file is well
nested and the tree has no error node.
-/

namespace Eter.Parser
open Brackets

variable {tokens : List Token} {lexErrors : List LexerError} {source : Bytes}
  {interner : StringInterner} {n : ℕ}

/-- Recursion goes down, and loops turn, no more often than is linear in the number of tokens. -/
theorem parse_terminates (tokens : List Token) (lexErrors : List LexerError) (source : Bytes)
    (interner : StringInterner) (k : ℕ) :
    ∃ r s, parse (enough tokens + k) (.fresh tokens lexErrors source) interner = .ok (r, s) ∧
      s.stream.atEof = true := by
  obtain ⟨r, s, hp, heof, -⟩ :=
    parse_spec .acceptance lexErrors source interner (Nat.le_add_right (enough tokens) k)
  exact ⟨r, s, hp, heof⟩

/-- The tokens up to the first end of file. -/
def beforeEof (tokens : List Token) : List Token := tokens.takeWhile fun t => t.tokenKind ≠ .eof

theorem beforeEof_eq_take {c : ℕ} (hall : ∀ t ∈ tokens.take c, t.tokenKind ≠ .eof)
    (hstop : ∀ t, tokens[c]? = some t → t.tokenKind = .eof) :
    beforeEof tokens = tokens.take c := by
  unfold beforeEof
  conv_lhs => rw [← List.take_append_drop c tokens]
  rw [List.takeWhile_append_of_pos (by simpa using hall)]
  have hrest : (tokens.drop c).takeWhile (fun t => t.tokenKind ≠ .eof) = [] := by
    cases hd : tokens.drop c with
    | nil => rfl
    | cons t rest =>
      have ht : tokens[c]? = some t := by
        rw [← Nat.add_zero c, ← List.getElem?_drop, hd]
        rfl
      simp [hstop t ht]
  rw [hrest, List.append_nil]

theorem word_acceptance (c : ℕ) : Watch.word ⟨.acceptance, tokens, 0⟩ c =
    (tokens.take c).map fun t => symOf t.tokenKind := rfl

/-- Without errors all consumed brackets are closed at the end. -/
theorem balanced_of_accepted {s : PState} {hs : Held}
    (h : Holds ⟨.acceptance, tokens, 0⟩ tokens.length 0 0 [] hs s) (herr : s.errors = [])
    (heof : s.stream.atEof = true) :
    beforeEof tokens = tokens.take s.stream.cursor ∧
      Balanced ((beforeEof tokens).map fun t => symOf t.tokenKind) := by
  have hrun : Brackets.run (Watch.word ⟨.acceptance, tokens, 0⟩ s.stream.cursor) [] = some [] := by
    refine h.nested.resolve_left fun hnoisy => ?_
    have hlen : 1 ≤ s.errors.length := hnoisy
    rw [herr] at hlen
    simp at hlen
  rw [word_acceptance] at hrun
  have hbad := not_bad_of_run hrun
  have htake : beforeEof tokens = tokens.take s.stream.cursor := by
    refine beforeEof_eq_take (fun t ht hk => hbad ?_) fun t ht => ?_
    · exact List.mem_map.mpr ⟨t, ht, by rw [hk]; rfl⟩
    · have hpeek : s.stream.peek 0 = .eof := by
        simpa [TokenStream.atEof, TokenStream.check] using heof
      unfold TokenStream.peek at hpeek
      rw [h.tokens, Nat.add_zero, ht] at hpeek
      exact hpeek
  exact ⟨htake, htake ▸ hrun⟩

theorem no_error_of_accepted {w : Watch} {b e q : ℕ} {st : List Bracket} {hs : Held} {s : PState}
    (h : Holds w b e q st hs s) (herr : s.errors = []) {i : ℕ} {d : NodeData} (hi : 1 ≤ i)
    (hd : s.pool.get? (some i) = some d) : d.kind ≠ .Error := by
  obtain ⟨rs, hp, hg⟩ := h.tree
  rw [hp, poolOf_get?] at hd
  obtain ⟨r, hr, rfl⟩ := Option.map_eq_some_iff.mp hd
  exact (hg.clean herr i r hi hr).1

theorem accepted_well_nested (hn : enough tokens ≤ n) {r : ParseResult} {s : PState}
    (hp : parse n (.fresh tokens lexErrors source) interner = .ok (r, s)) (herr : r.errors = []) :
    (∀ t ∈ beforeEof tokens, t.tokenKind ≠ .unknown) ∧
      Balanced ((beforeEof tokens).map fun t => symOf t.tokenKind) ∧
      ∀ i d, 1 ≤ i → r.pool.get? (some i) = some d → d.kind ≠ .Error := by
  obtain ⟨r', s', hp', heof, hpool, herrors, -, h⟩ :=
    parse_spec .acceptance lexErrors source interner hn
  rw [hp] at hp'
  cases hp'
  rw [herrors] at herr
  obtain ⟨-, hbalanced⟩ := balanced_of_accepted h herr heof
  refine ⟨fun t ht hk => ?_, hbalanced, fun i d hi hd => ?_⟩
  · exact not_bad_of_run hbalanced (List.mem_map.mpr ⟨t, ht, by rw [hk]; rfl⟩)
  · rw [hpool] at hd
    exact no_error_of_accepted h herr hi hd

/-- The token of one byte at an offset. -/
def byteToken (k : Token.Kind) (offset : ℕ) : Token := ⟨k, ⟨offset, offset + 1⟩⟩

/-- `fn f(){}`, one byte a token. -/
def emptyFn : List Token :=
  [byteToken .kw_fn 0, byteToken .identifier 1, byteToken .l_paren 2, byteToken .r_paren 3,
    byteToken .l_brace 4, byteToken .r_brace 5]

theorem emptyFn_parses : ∃ r s, parse 29 (.fresh emptyFn [] []) .new = .ok (r, s) ∧
    r.errors = [] ∧ r.pool.children.length = 3 := by
  have h : (parse 29 (.fresh emptyFn [] []) .new).toOption.map
      (fun p => (p.1.errors, p.1.pool.children.length)) = some ([], 3) := by decide +kernel
  cases hp : parse 29 (.fresh emptyFn [] []) .new with
  | ok rs =>
    rw [hp] at h
    have hpair : (rs.1.errors, rs.1.pool.children.length) = ([], 3) := Option.some.inj h
    exact ⟨rs.1, rs.2, rfl, congrArg Prod.fst hpair, congrArg Prod.snd hpair⟩
  | error e =>
    rw [hp] at h
    cases h

theorem accepted_well_nested_fn :
    (∀ t ∈ beforeEof emptyFn, t.tokenKind ≠ .unknown) ∧
      Balanced ((beforeEof emptyFn).map fun t => symOf t.tokenKind) := by
  obtain ⟨r, s, hp, herr, -⟩ := emptyFn_parses
  have h := accepted_well_nested (by decide) hp herr
  exact ⟨h.1, h.2.1⟩

end Eter.Parser
