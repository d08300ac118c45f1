import Eter.SpanItems
import Eter.LexerOrder
import Eter.ParserRuns
import Eter.TreeShape
import Eter.Driver

/-!
# Spans of whole files
-/

namespace Eter.Parser
open Stateful Diag Lexer

variable {source : Bytes} {interner : StringInterner} {n : ℕ} {ts : List Token} {size : ℕ}

/-! ### The ground of a text -/

theorem getLast?_end {lo : ℕ} (h : Lined lo size ts) {i : ℕ} {t : Token} (ht : ts[i]? = some t) :
    t.tokenSpan.end ≤ ts.getLast?.elim 0 fun u => u.tokenSpan.end := by
  induction ts generalizing lo i t with
  | nil => cases ht
  | cons u us ih =>
    cases us with
    | nil =>
      cases i with
      | zero =>
        cases ht
        exact le_rfl
      | succ i => cases ht
    | cons v us =>
      rw [List.getLast?_cons_cons]
      cases i with
      | zero =>
        cases ht
        have hv := ih h.2.2 (show (v :: us)[0]? = some v from rfl)
        exact h.2.2.1.trans (h.2.2.2.1.trans hv)
      | succ i => exact ih h.2.2 ht

/-- The ground that tokens in a line make. -/
def groundOf (ts : List Token) (size : ℕ) (h : Lined 0 size ts) : Ground where
  side := ⟨ts, [], [], [], []⟩
  size := size
  ordered i := by
    rcases Nat.lt_or_ge i ts.length with hi | hi
    · rw [Side.tokenAt_of_getElem? (x := ⟨ts, [], [], [], []⟩) (List.getElem?_eq_getElem hi)]
      exact (h.get (List.getElem?_eq_getElem hi)).2.1
    · rw [Side.tokenAt_of_length_le (x := ⟨ts, [], [], [], []⟩) hi]
  apart i := by
    rcases Nat.lt_or_ge i ts.length with hi | hi
    · have hget := List.getElem?_eq_getElem hi
      rw [Side.tokenAt_of_getElem? (x := ⟨ts, [], [], [], []⟩) hget]
      rcases Nat.lt_or_ge (i + 1) ts.length with hi' | hi'
      · rw [Side.tokenAt_of_getElem? (x := ⟨ts, [], [], [], []⟩) (List.getElem?_eq_getElem hi')]
        have hnext := (h.get hget).2.2
        rw [List.drop_eq_getElem_cons hi'] at hnext
        exact hnext.1
      · rw [Side.tokenAt_of_length_le (x := ⟨ts, [], [], [], []⟩) hi']
        exact getLast?_end h hget
    · rw [Side.tokenAt_of_length_le (x := ⟨ts, [], [], [], []⟩) hi,
        Side.tokenAt_of_length_le (x := ⟨ts, [], [], [], []⟩) (Nat.le_succ_of_le hi)]
  inside i := by
    rcases Nat.lt_or_ge i ts.length with hi | hi
    · rw [Side.tokenAt_of_getElem? (x := ⟨ts, [], [], [], []⟩) (List.getElem?_eq_getElem hi)]
      exact (h.get (List.getElem?_eq_getElem hi)).2.2.le
    · rw [Side.tokenAt_of_length_le (x := ⟨ts, [], [], [], []⟩) hi]
      change (ts.getLast?.elim 0 fun u => u.tokenSpan.end) ≤ size
      cases hlast : ts.getLast? with
      | none => exact Nat.zero_le _
      | some t =>
        obtain ⟨j, hj⟩ := List.mem_iff_getElem?.mp (List.mem_of_getLast? hlast)
        exact (h.get hj).2.2.le

/-! ### At the end of a run -/

theorem parse_good (hn : enough ts ≤ n) (h : Lined 0 size ts) (lexErrors : List LexerError)
    (source : Bytes) (interner : StringInterner) :
    ∃ r s c, parse n (.fresh ts lexErrors source) interner = .ok (r, s) ∧ r.pool = s.pool ∧
      r.errors = s.errors ∧ Good (groundOf ts size h) c s := by
  obtain ⟨r, s, hp, -, hpool, herrors, -⟩ := parse_spec .acceptance lexErrors source interner hn
  have hinit : Good (groundOf ts size h) 0 (initialState (.fresh ts lexErrors source) interner) := by
    refine ⟨rfl, rfl, ⟨[sentinel], poolOf_sentinel.symm, fun _ r hr => ?_, fun _ r hr => ?_⟩,
      fun d hd => (nomatch hd), fun hmem => (nomatch hmem)⟩
    · rw [List.mem_singleton.mp hr]
      exact ⟨le_rfl, Nat.zero_le _⟩
    · rw [List.mem_singleton.mp hr]
      exact ⟨[], [], rfl, fun _ hi => (nomatch hi), le_rfl⟩
  have hrun := hp
  unfold parse at hrun
  cases hs : parseSourceFile n (initialState (.fresh ts lexErrors source) interner) with
  | error e =>
    rw [hs] at hrun
    cases hrun
  | ok p =>
    rw [hs] at hrun
    cases hrun
    obtain ⟨-, c, -, hgood⟩ := parseSourceFile_lays hinit _ _ hs
    exact ⟨_, _, c, hp, hpool, herrors, hgood⟩

/-! ### Malformed programs -/

/-- All nodes and diagnostics have proper spans, so that no length wraps. -/
def ParseResult.ProperSpans (r : ParseResult) (size : ℕ) : Prop :=
  (∀ i z, r.pool.spanOf? i = some z → Proper size z) ∧
    ∀ d ∈ r.errors, Proper size d.loc ∧ ∀ l ∈ d.labels, Proper size l.diagSpan

theorem record_of_spanOf? {rs : List NodeRecord} {i : NodeIndex} {z : Span}
    (h : (poolOf rs).spanOf? i = some z) : ∃ j r, i = some j ∧ rs[j]? = some r ∧ r.span = z := by
  cases i with
  | none => cases h
  | some j =>
    change (poolOf rs).spans[j]? = some z at h
    rw [poolOf_spans, List.getElem?_map] at h
    obtain ⟨r, hr, hz⟩ := Option.map_eq_some_iff.mp h
    exact ⟨j, r, rfl, hr, hz⟩

/-- Of a text without lexical errors, all spans are proper exactly if no missing parameter stands
behind a gap. -/
theorem proper_spans_iff (hlex : Silent (lexAll source)) (interner : StringInterner)
    (hn : enough (TokenStream.tokensOf (lexAll source)) ≤ n) :
    ∃ r s, parse n (.ofItems (lexAll source) source) interner = .ok (r, s) ∧
      (r.ProperSpans source.length ↔ .gappedParam ∉ s.slips) := by
  obtain ⟨r, s, c, hp, hpool, herrors, h⟩ := parse_good hn (lexAll_lined hlex)
    (TokenStream.errorsOf (lexAll source)) source interner
  refine ⟨r, s, hp, fun hproper hmem => ?_, fun hno => ⟨fun i z hz => ?_, ?_⟩⟩
  · obtain ⟨-, i, z, hz, hlt⟩ := h.exposed hmem
    rw [← hpool] at hz
    exact absurd (hproper.1 i z hz).1 (Nat.not_le_of_lt hlt)
  · obtain ⟨rs, hrs, hfine, -⟩ := h.records
    rw [hpool, hrs] at hz
    obtain ⟨j, rec, -, hrec, rfl⟩ := record_of_spanOf? hz
    exact hfine (fun hmem => (hno hmem).elim) rec (List.mem_of_getElem? hrec)
  · rw [herrors]
    exact h.errors

/-- `fn f( ,)`, whose first parameter is missing behind a space. -/
def missingParam : Bytes := ascii "fn f( ,)"

theorem missingParam_silent : Silent (lexAll missingParam) :=
  (Driver.lexerErrors_eq_nil_iff _).mp (by decide +kernel)

theorem missingParam_parses : ∃ r s,
    parse 33 (.ofItems (lexAll missingParam) missingParam) .new = .ok (r, s) ∧
      r.pool.spanOf? (some 2) = some ⟨6, 5⟩ := by
  have h : (parse 33 (.ofItems (lexAll missingParam) missingParam) .new).toOption.map
      (fun p => p.1.pool.spanOf? (some 2)) = some (some ⟨6, 5⟩) := by decide +kernel
  cases hp : parse 33 (.ofItems (lexAll missingParam) missingParam) .new with
  | ok rs =>
    rw [hp] at h
    exact ⟨rs.1, rs.2, rfl, Option.some.inj h⟩
  | error e =>
    rw [hp] at h
    cases h

/-- The parameter ends with the parenthesis and starts with the comma. -/
theorem missing_param_inverted : Silent (lexAll missingParam) ∧ ∃ r s,
    parse 33 (.ofItems (lexAll missingParam) missingParam) .new = .ok (r, s) ∧
      ¬ r.ProperSpans missingParam.length := by
  obtain ⟨r, s, hp, hspan⟩ := missingParam_parses
  refine ⟨missingParam_silent, r, s, hp, fun hproper => ?_⟩
  exact absurd (hproper.1 _ _ hspan).1 (by decide)

theorem proper_spans_iff_missing : ∃ r s,
    parse 33 (.ofItems (lexAll missingParam) missingParam) .new = .ok (r, s) ∧
      .gappedParam ∈ s.slips := by
  obtain ⟨r, s, hp, hiff⟩ := proper_spans_iff missingParam_silent .new (n := 33) (by decide +kernel)
  obtain ⟨r', s', hp', hspan⟩ := missingParam_parses
  rw [hp] at hp'
  cases hp'
  refine ⟨r, s, hp, ?_⟩
  by_contra hno
  exact absurd ((hiff.mpr hno).1 _ _ hspan).1 (by decide)

/-! ### Accepted programs -/

def NodePool.isDoc (p : NodePool) (i : NodeIndex) : Bool :=
  match p.get? i with
  | some d => d.kind = .DocComment
  | none => false

/-- The children that are there and are no documentation. -/
def NodePool.codeChildren (p : NodePool) (i : NodeIndex) : List NodeIndex :=
  (p.childrenOf i).filter fun j => j ≠ NullNode && !p.isDoc j

/-- Nodes lie in the text, around their children and behind their documentation. -/
structure NodePool.SpansNest (p : NodePool) (size : ℕ) : Prop where
  proper : ∀ i z, p.spanOf? i = some z → Proper size z
  contained : ∀ i z, p.spanOf? i = some z → ∀ j ∈ p.codeChildren i,
    ∃ x, p.spanOf? j = some x ∧ z.start ≤ x.start ∧ x.end ≤ z.end
  ordered : ∀ i, (p.codeChildren i).Pairwise fun j k =>
    ∀ x y, p.spanOf? j = some x → p.spanOf? k = some y → x.end ≤ y.start
  docs : ∀ i z, p.spanOf? i = some z → ∀ j ∈ p.childrenOf i, p.isDoc j = true →
    ∃ x, p.spanOf? j = some x ∧ x.end ≤ z.start

variable {p : NodePool} {a b : ℕ} {is : List NodeIndex} {z : Span}

theorem NodePool.Lies.not_doc {i : NodeIndex} {x : Span} (h : p.Lies i x) : p.isDoc i = false := by
  obtain ⟨-, d, hd, hkind⟩ := h
  unfold NodePool.isDoc
  rw [hd]
  simpa using hkind

theorem NodePool.Row.mem (h : p.Row a b is) {j : NodeIndex} (hj : j ∈ is) (hnull : j ≠ NullNode) :
    ∃ x, p.Lies j x ∧ a ≤ x.start ∧ x.start ≤ x.end ∧ x.end ≤ b := by
  induction is generalizing a with
  | nil => cases hj
  | cons i is ih =>
    cases i with
    | none =>
      rcases List.mem_cons.mp hj with rfl | hj
      · exact (hnull rfl).elim
      · exact ih h hj
    | some i =>
      obtain ⟨x, hx, hle, hord, hrest⟩ := h
      rcases List.mem_cons.mp hj with rfl | hj
      · exact ⟨x, hx, hle, hord, hrest.le⟩
      · obtain ⟨y, hy, hle', hord', hend⟩ := ih hrest hj
        exact ⟨y, hy, hle.trans (hord.trans hle'), hord', hend⟩

theorem NodePool.Row.take (h : p.Row a b is) (k : ℕ) : p.Row a b (is.take k) := by
  induction is generalizing a k with
  | nil => rwa [List.take_nil]
  | cons i is ih =>
    cases k with
    | zero => exact h.le
    | succ k =>
      cases i with
      | none => exact ih h k
      | some i =>
        obtain ⟨x, hx, hle, hord, hrest⟩ := h
        exact ⟨x, hx, hle, hord, ih hrest k⟩

theorem NodePool.Row.pairwise (h : p.Row a b is) {q : NodeIndex → Bool}
    (hq : ∀ j, q j = true → j ≠ NullNode) : (is.filter q).Pairwise fun j k =>
      ∀ x y, p.spanOf? j = some x → p.spanOf? k = some y → x.end ≤ y.start := by
  induction is generalizing a with
  | nil => exact List.Pairwise.nil
  | cons i is ih =>
    cases i with
    | none =>
      rw [List.filter_cons_of_neg fun hnone => hq none hnone rfl]
      exact ih h
    | some i =>
      obtain ⟨x, hx, -, -, hrest⟩ := h
      by_cases hqi : q (some i) = true
      · rw [List.filter_cons_of_pos hqi, List.pairwise_cons]
        refine ⟨fun k hk u y hu hy => ?_, ih hrest⟩
        obtain ⟨hk, hqk⟩ := List.mem_filter.mp hk
        obtain ⟨y', hy', hle, -, -⟩ := hrest.mem hk (hq k hqk)
        obtain rfl : x = u := Option.some.inj (hx.1.symm.trans hu)
        obtain rfl : y' = y := Option.some.inj (hy'.1.symm.trans hy)
        exact hle
      · rw [List.filter_cons_of_neg hqi]
        exact ih hrest

/-- However many of the children are recorded, they nest. -/
theorem NodePool.Nests.take (h : p.Nests z is) (k : ℕ) : p.Nests z (is.take k) := by
  obtain ⟨docs, rest, rfl, hdocs, hrest⟩ := h
  refine ⟨docs.take k, rest.take (k - docs.length), List.take_append, fun i hi => ?_,
    hrest.take _⟩
  exact hdocs i (List.mem_of_mem_take hi)

theorem NodePool.Nests.code (h : p.Nests z is) : ∃ rest, p.Row z.start z.end rest ∧
    (is.filter fun j => j ≠ NullNode && !p.isDoc j) =
      rest.filter fun j => j ≠ NullNode && !p.isDoc j := by
  obtain ⟨docs, rest, rfl, hdocs, hrest⟩ := h
  refine ⟨rest, hrest, ?_⟩
  rw [List.filter_append, List.filter_eq_nil_iff.mpr fun i hi => ?_, List.nil_append]
  obtain ⟨x, -, -, d, hd, hkind⟩ := hdocs i hi
  simp [NodePool.isDoc, hd, hkind]

theorem childrenOf_of_no_span {rs : List NodeRecord} {i : NodeIndex}
    (h : (poolOf rs).spanOf? i = none) : (poolOf rs).childrenOf i = [] := by
  cases i with
  | none => rfl
  | some j =>
    change (poolOf rs).spans[j]? = none at h
    rw [poolOf_spans, List.getElem?_map, Option.map_eq_none_iff] at h
    exact childrenOf_of_none h

/-- In a program that is accepted all nodes lie in the text as their children do. -/
theorem accepted_spans_nest (hlex : Silent (lexAll source)) (interner : StringInterner)
    (hn : enough (TokenStream.tokensOf (lexAll source)) ≤ n) :
    ∃ r s, parse n (.ofItems (lexAll source) source) interner = .ok (r, s) ∧
      (r.errors = [] → r.pool.SpansNest source.length) := by
  obtain ⟨r, s, c, hp, hpool, herrors, h⟩ := parse_good hn (lexAll_lined hlex)
    (TokenStream.errorsOf (lexAll source)) source interner
  refine ⟨r, s, hp, fun herr => ?_⟩
  have hclean : s.Clean := herrors.symm.trans herr
  obtain ⟨rs, hrs, hfine, hnests⟩ := h.records
  rw [hpool]
  have nests : ∀ i z, s.pool.spanOf? i = some z → s.pool.Nests z (s.pool.childrenOf i) := by
    intro i z hz
    rw [hrs] at hz
    obtain ⟨j, rec, rfl, hrec, rfl⟩ := record_of_spanOf? hz
    have htake := (hnests hclean rec (List.mem_of_getElem? hrec)).take (rec.kids.length % 2 ^ 16)
    rwa [← childrenOf_of_record hrec, ← hrs] at htake
  refine ⟨fun i z hz => ?_, fun i z hz j hj => ?_, fun i => ?_, fun i z hz j hj hdoc => ?_⟩
  · rw [hrs] at hz
    obtain ⟨j, rec, -, hrec, rfl⟩ := record_of_spanOf? hz
    exact hfine hclean.fine rec (List.mem_of_getElem? hrec)
  · obtain ⟨rest, hrow, heq⟩ := (nests i z hz).code
    unfold NodePool.codeChildren at hj
    rw [heq] at hj
    obtain ⟨hj, hcode⟩ := List.mem_filter.mp hj
    obtain ⟨x, hx, hlo, -, hhi⟩ := hrow.mem hj (by rintro rfl; simp at hcode)
    exact ⟨x, hx.1, hlo, hhi⟩
  · cases hz : s.pool.spanOf? i with
    | none =>
      rw [hrs] at hz ⊢
      unfold NodePool.codeChildren
      rw [childrenOf_of_no_span hz]
      exact List.Pairwise.nil
    | some z =>
      obtain ⟨rest, hrow, heq⟩ := (nests i z hz).code
      unfold NodePool.codeChildren
      rw [heq]
      exact hrow.pairwise fun j hj => by rintro rfl; simp at hj
  · obtain ⟨docs, rest, heq, hdocs, hrow⟩ := nests i z hz
    rw [heq] at hj
    rcases List.mem_append.mp hj with hj | hj
    · obtain ⟨x, hx, hle, -⟩ := hdocs j hj
      exact ⟨x, hx, hle⟩
    · obtain ⟨x, hx, -⟩ := hrow.mem hj (by rintro rfl; cases hdoc)
      rw [hx.not_doc] at hdoc
      cases hdoc

/-- `/// d`, a line, `fn f(x: T) {}`. -/
def documentedFn : Bytes := ascii "/// d\nfn f(x: T) {}"

theorem accepted_spans_nest_documented : ∃ r s,
    parse 57 (.ofItems (lexAll documentedFn) documentedFn) .new = .ok (r, s) ∧
      r.pool.SpansNest documentedFn.length := by
  have hlex : Silent (lexAll documentedFn) :=
    (Driver.lexerErrors_eq_nil_iff _).mp (by decide +kernel)
  obtain ⟨r, s, hp, hnest⟩ := accepted_spans_nest hlex .new (n := 57) (by decide +kernel)
  have herr : (parse 57 (.ofItems (lexAll documentedFn) documentedFn) .new).toOption.map
      (fun p => p.1.errors) = some [] := by decide +kernel
  rw [hp] at herr
  exact ⟨r, s, hp, hnest (Option.some.inj herr)⟩

end Eter.Parser
