import Eter.StatementLists
import Eter.TensorLiterals

/-!
# Resynchronisation between statements

Tokens at which no statement starts, before a statement of a block: all of them together become one
error node and one diagnostic, and the statements are read as without them.
-/

namespace Eter.Parser
open Stateful NodePool Diag

variable {s s₁ s₂ t u u₁ u₂ : PState} {n p k i j e a b m q : ℕ} {x x₁ x₂ : NodeIndex}
  {form : BlockForm}

/-! ### Tokens that are dropped -/

/-- No statement starts at the token, and recovery does not stop at it. -/
def isJunk (k : Token.Kind) : Bool :=
  !startsStmt k && !isSyncStop k && k ≠ .kw_else && k ≠ .semi && k ≠ .r_brace && k ≠ .eof

structure Junk (s : PState) (p k : ℕ) : Prop where
  nonempty : 1 ≤ k
  junk : ∀ i, p ≤ i → i < p + k → isJunk (s.kindAt i) = true

theorem isJunk_cases {k : Token.Kind} (h : isJunk k = true) :
    startsStmt k = false ∧ isSyncStop k = false ∧ k ≠ .semi ∧ k ≠ .eof ∧ k ≠ .kw_else ∧
      k ≠ .r_brace := by
  simp [isJunk] at h
  tauto

theorem isSyncStop_of_keyword {k : Token.Kind} (h : isStatementKeyword k = true) :
    isSyncStop k = true := by
  simp only [isStatementKeyword, Bool.or_eq_true, decide_eq_true_eq] at h
  rcases h with (((((((h | h) | h) | h) | h) | h) | h) | h) | h <;> rw [h] <;> rfl

theorem previous_kind (hc : s.stream.cursor = i + 1) :
    s.stream.previous.tokenKind = s.kindAt i := by
  unfold TokenStream.previous PState.kindAt TokenStream.peek PState.at
  rw [hc]
  dsimp only
  rw [Nat.add_zero]
  cases s.stream.tokens[i]? <;> rfl

theorem skipped_kindAt (s : PState) (i : ℕ) : s.skipped.kindAt i = s.kindAt i := by
  have htokens : s.skipped.stream.tokens = s.stream.tokens := by
    unfold PState.skipped TokenStream.advance
    dsimp only
    split <;> rfl
  unfold PState.kindAt TokenStream.peek PState.at
  rw [htokens]

/-- Recovery goes on to the first token where it stops. -/
theorem syncTokens_stops (hjunk : ∀ i, s.stream.cursor ≤ i + 1 → i < q → isJunk (s.kindAt i) = true)
    (hstop : isSyncStop (s.kindAt q) = true) (hpos : 1 ≤ s.stream.cursor) (hle : s.stream.cursor ≤ q)
    (hm : q - s.stream.cursor < m) :
    Yields (syncTokens m) (fun _ t => t.stream.cursor = q ∧ t.errors = s.errors) s := by
  induction m generalizing s with
  | zero => omega
  | succ m ih =>
    unfold Yields
    rw [dropping_syncTokens.succ]
    rcases Nat.eq_or_lt_of_le hle with hq | hlt
    · have hstop : isSyncStop (s.stream.peek 0) = true := by
        rw [PState.peek_of_cursor hq]
        exact hstop
      rw [hstop, Bool.or_true, if_pos rfl]
      exact ⟨(), s, rfl, hq, rfl⟩
    · obtain ⟨c, hc⟩ : ∃ c, s.stream.cursor = c + 1 := ⟨s.stream.cursor - 1, by omega⟩
      obtain ⟨-, hnext, -, heof, -⟩ := isJunk_cases (hjunk s.stream.cursor (by omega) hlt)
      obtain ⟨-, -, hsemi, -⟩ := isJunk_cases (hjunk c (by omega) (by omega))
      have hend : s.stream.atEof = false := decide_eq_false heof
      have hgo : isSyncStop (s.stream.peek 0) = false := hnext
      rw [hend, hgo, previous_kind hc, decide_eq_false hsemi, if_neg (by decide)]
      have hskip : s.skipped.stream.cursor = s.stream.cursor + 1 := skipped_cursor (lt_of_kindAt heof)
      refine (ih (s := s.skipped) ?_ ?_ ?_ ?_ ?_).mono fun _ t ht => ht
      · intro i hi hq
        rw [skipped_kindAt]
        exact hjunk i (by omega) hq
      · rw [skipped_kindAt]
        exact hstop
      all_goals omega

/-- The error node of a statement. -/
def errorTree : SyntaxTree := .node .Error 0 none 0 []

/-- One diagnostic about a missing statement was added. -/
def ReportsStmt (s t : PState) : Prop :=
  ∃ d, t.errors = s.errors ++ [d] ∧ d.localID = .ExpectedStmt

theorem Junk.synchronize (h : Junk s p k) (hstop : isSyncStop (s.kindAt (p + k)) = true)
    (hp : s.stream.cursor = p) :
    Yields synchronize (fun _ t => t.stream.cursor = p + k ∧ t.errors = s.errors) s := by
  have hpos := h.nonempty
  obtain ⟨-, -, -, heof, -⟩ := isJunk_cases (h.junk p le_rfl (by omega))
  have hpeek : s.stream.peek 0 = s.kindAt p := PState.peek_of_cursor hp
  have hlt : s.stream.cursor < s.stream.tokens.length := hp ▸ lt_of_kindAt heof
  have hend : p + k < s.stream.tokens.length := lt_of_kindAt (fun hk => by
    rw [hk] at hstop
    cases hstop)
  have hskip : s.skipped.stream.cursor = p + 1 := hp ▸ skipped_cursor hlt
  have htokens : s.skipped.stream.tokens = s.stream.tokens :=
    (precedes_grow.skip s () s.skipped rfl).tokens
  refine Yields.read rfl ?_
  rw [if_neg (by simpa [TokenStream.atEof, TokenStream.check, hpeek] using heof)]
  refine Yields.bind (R := fun _ t => t = s.skipped) ⟨(), s.skipped, rfl, rfl⟩ ?_
  rintro _ _ rfl
  refine syncTokens_stops (fun i hi hq => ?_) ?_ (by omega) (by omega) ?_
  · rw [skipped_kindAt]
    exact h.junk i (by omega) hq
  · rw [skipped_kindAt]
    exact hstop
  · rw [htokens]
    omega

/-- From the first of the tokens the statement parser drops all of them. -/
theorem Junk.run (h : Junk s p k) (hs : s.Valid) (hstop : isSyncStop (s.kindAt (p + k)) = true)
    (hn : s.depth ≤ n + 1) (hp : s.stream.cursor = p) :
    Yields (Parser.run (n + 1) .stmt) (fun x u => s.Extends u ∧ u.stream.cursor = p + k ∧
      ReportsStmt s u ∧ u.Denotes x errorTree) s := by
  have hpos := h.nonempty
  obtain ⟨hstarts, -, -, heof, -⟩ := isJunk_cases (h.junk p le_rfl (by omega))
  have hpeek : s.stream.peek 0 = s.kindAt p := PState.peek_of_cursor hp
  have hruns : Yields (Parser.run (n + 1) .stmt) (fun i t => s.Extends t ∧ t.Has i) s :=
    hs.runs (show s.stream.peek 0 ≠ .eof by rwa [hpeek]) hn
  have hbad : parseStmt n (Parser.run n) s = parseBadStmt (s.stream.peekToken 0) s :=
    parseStmt_bad (by rwa [hpeek])
  suffices hrun : Yields (parseBadStmt (s.stream.peekToken 0)) (fun x u =>
      u.stream.cursor = p + k ∧ ReportsStmt s u ∧ u.Denotes x errorTree) s by
    obtain ⟨x, u, hx, hQ⟩ := hrun
    rw [← hbad] at hx
    exact ((hruns.and ⟨x, u, hx, hQ⟩).mono fun _ _ hxu => ⟨hxu.1.1, hxu.2⟩)
  let s' : PState := { s with errors := s.errors ++ [diag (s.stream.peekToken 0).tokenSpan .ExpectedStmt] }
  have hjunk : Junk s' p k := ⟨h.nonempty, h.junk⟩
  obtain ⟨_, t, ht, hcur, herr⟩ := hjunk.synchronize hstop hp
  obtain ⟨hs', hh⟩ := hs.holds
  obtain ⟨hsync, -⟩ := ((hh.reported _).synchronize le_rfl).of_eq ht
  have hvalid : t.Valid := ⟨by rw [hsync.tokens]; exact hsync.inside, by
    obtain ⟨rs, hpool, hgrown⟩ := hsync.tree
    exact ⟨rs, _, hpool, hgrown⟩⟩
  refine Yields.bind (R := fun _ u => u = s') ⟨(), s', rfl, rfl⟩ ?_
  rintro _ _ rfl
  refine Yields.bind (R := fun _ u => u = t) ⟨_, t, ht, rfl⟩ ?_
  rintro _ _ rfl
  refine (alloc_denotes hvalid (.plain 0) .nil).mono ?_
  rintro x u ⟨hstream, herr', -, hden⟩
  exact ⟨by rw [hstream]; exact hcur, ⟨_, herr'.trans herr, rfl⟩, hden⟩

/-! ### Blocks with the tokens and without them -/

/-- A block at the cursor whose closing brace is token `e`: `a` statements without errors before
token `p` and `b` behind it. -/
structure BlockAt (form : BlockForm) (s : PState) (p e a b : ℕ) : Prop where
  opens : form.OpensAt s s.stream.cursor
  before : Statements s (s.stream.cursor + form.width) a p
  behind : Statements s p b e
  closes : s.kindAt e = .r_brace

/-- The first node has the statements `as` and `bs` as children, and the second one these and an
error node between them. -/
def SameStatements (form : BlockForm) (u₁ : PState) (x₁ : NodeIndex) (u₂ : PState) (x₂ : NodeIndex)
    (a b : ℕ) : Prop :=
  ∃ as bs, as.length = a ∧ bs.length = b ∧ u₁.Denotes x₁ (.node form.kind 0 none 0 (as ++ bs)) ∧
    u₂.Denotes x₂ (.node form.kind 0 none 0 (as ++ errorTree :: bs))

theorem BlockForm.OpensAt.inserted (h : form.OpensAt s₁ i) (hins : Inserted s₁ s₂ p k)
    (hi : i + form.width ≤ p) : form.OpensAt s₂ i := by
  cases form with
  | block => exact (hins.before i (by simpa [BlockForm.width] using hi)).trans h
  | unsafeBlock =>
    have hi : i + 2 ≤ p := hi
    exact ⟨(hins.before i (by omega)).trans h.1, (hins.before (i + 1) (by omega)).trans h.2⟩

/-- The two runs over a block with junk and without it. -/
theorem block_runs (hs₁ : s₁.Valid) (hs₂ : s₂.Valid) (hcur : s₂.stream.cursor = s₁.stream.cursor)
    (hblock : BlockAt form s₁ p e a b) (hkey : isStatementKeyword (s₁.kindAt p) = true)
    (hins : Inserted s₁ s₂ p k) (hjunk : Junk s₂ p k) : ∃ d, ∀ n ≥ d, ∃ as bs x₁ u₁ x₂ u₂,
      as.length = a ∧ bs.length = b ∧ form.parse n s₁ = .ok (x₁, u₁) ∧
      form.parse n s₂ = .ok (x₂, u₂) ∧ (u₁.stream.cursor = e + 1 ∧ u₂.stream.cursor = e + 1 + k) ∧
      (u₁.errors = s₁.errors ∧ ReportsStmt s₂ u₂) ∧
      (u₁.Denotes x₁ (.node form.kind 0 none 0 ((as ++ bs).take ((a + b) % 2 ^ 16))) ∧
        u₂.Denotes x₂
          (.node form.kind 0 none 0 ((as ++ errorTree :: bs).take ((a + b + 1) % 2 ^ 16)))) := by
  have hstart := hblock.before.forward hs₁
  have hend := hblock.behind.forward hs₁
  have he : e < s₁.stream.tokens.length := lt_of_kindAt (by rw [hblock.closes]; decide)
  obtain ⟨-, -, -, -, helse₂, -⟩ := isJunk_cases (hjunk.junk p le_rfl (by have := hjunk.nonempty; omega))
  have helse₁ : s₁.kindAt p ≠ .kw_else := by
    intro hk
    rw [hk] at hkey
    cases hkey
  have hnext : s₂.kindAt (p + k) = s₁.kindAt p := hins.behind p le_rfl (by omega)
  have hclose₂ : s₂.kindAt (e + k) = .r_brace := (hins.behind e hend he).trans hblock.closes
  obtain ⟨t₁, ht₁, herr₁, hcur₁, hparse₁⟩ := form.parses hs₁ hblock.opens
  obtain ⟨t₂, ht₂, herr₂, hcur₂, hparse₂⟩ := form.parses hs₂
    (by rw [hcur]; exact hblock.opens.inserted hins hstart)
  obtain ⟨d, hd⟩ := Statements.listed 0 p 0 hblock.before hs₁ (fun i _ hi => hins.before i hi)
    (fun i j hclean _ hj => hins.stmt_before hs₁ hclean hj helse₁ helse₂) (Nat.zero_le _) le_rfl
  obtain ⟨d', hd'⟩ := Statements.listed p e k hblock.behind hs₁
    (fun i hlo hi => hins.behind i hlo (by omega))
    (fun i j hclean hlo hj => hins.stmt_behind hs₁ hclean hlo (by omega) fun _ => hkey)
    le_rfl le_rfl
  refine ⟨max (max d d') (max (s₂.depth + 1) (a + b + 2)), fun n hn => ?_⟩
  simp only [ge_iff_le, sup_le_iff] at hn
  obtain ⟨⟨hnd, hnd'⟩, hdepth, hturns⟩ := hn
  obtain ⟨n, rfl⟩ : ∃ m, n = m + 1 := ⟨n - 1, by omega⟩
  -- The statements before the place.
  obtain ⟨xs, v₁, ys, v₂, as, ha, ⟨hlist₁, hv₁⟩, hlist₂, hv₂⟩ := hd _ hnd t₁ t₂ ht₁.valid ht₂.valid
    ht₁.shares ht₂.shares hcur₁ (by rw [hcur₂, hcur]; rfl)
  have hsh₁ := ht₁.shares.trans hlist₁.later.shares
  have hsh₂ := ht₂.shares.trans hlist₂.later.shares
  -- The tokens in between, in the second run.
  have hdrop : Junk v₂ p k := ⟨hjunk.nonempty, fun i hi hik => by
    rw [hsh₂.kindAt]
    exact hjunk.junk i hi hik⟩
  have hpeek : v₂.stream.peek 0 = s₂.kindAt p := PState.peek_of_shares hsh₂ hv₂
  obtain ⟨-, -, -, heof, -, hbrace⟩ := isJunk_cases
    (hjunk.junk p le_rfl (by have := hjunk.nonempty; omega))
  obtain ⟨y, w₂, hrun, hext, hw₂, ⟨dgn, herr, hid⟩, hden⟩ := hdrop.run (n := n) hlist₂.later.valid
    (by rw [hsh₂.kindAt, hnext]; exact isSyncStop_of_keyword hkey) (by rw [hsh₂.depth]; omega) hv₂
  have hone : Listed (n + 1) v₂ [y] [errorTree] [dgn] w₂ :=
    .of_run hlist₂.later.valid (hpeek ▸ hbrace) (hpeek ▸ heof) hrun hext herr hden
  -- The statements behind the place.
  obtain ⟨xs', u₁, ys', u₂, bs, hb, ⟨hlist₁', hu₁⟩, hlist₂', hu₂⟩ := hd' _ hnd' v₁ w₂
    hlist₁.later.valid hext.valid hsh₁ (hsh₂.trans hext.shares) hv₁ hw₂
  have hall₁ := hlist₁.trans hlist₁'
  have hall₂ := hlist₂.trans (hone.trans hlist₂')
  have hlen₁ := hall₁.trees.length_eq
  have hlen₂ := hall₂.trees.length_eq
  simp only [List.length_append, List.length_cons, List.length_nil] at hlen₁ hlen₂
  obtain ⟨x₁, z₁, hrun₁, hz₁, herrz₁, -, hden₁⟩ := hparse₁ _ _ _ _ _ hall₁
    (by rw [PState.peek_of_shares (ht₁.trans hall₁.later).shares hu₁, hblock.closes])
    (by simp only [List.length_append]; omega)
  obtain ⟨x₂, z₂, hrun₂, hz₂, herrz₂, -, hden₂⟩ := hparse₂ _ _ _ _ _ hall₂
    (by rw [PState.peek_of_shares (ht₂.trans hall₂.later).shares hu₂, hclose₂])
    (by simp only [List.length_append, List.length_cons, List.length_nil]; omega)
  refine ⟨as, bs, x₁, z₁, x₂, z₂, ha, hb, hrun₁, hrun₂, ⟨by omega, by omega⟩,
    ⟨by simpa using herrz₁, dgn, by simpa using herrz₂, hid⟩, ?_, ?_⟩
  · rwa [List.length_append, show xs.length + xs'.length = a + b by omega] at hden₁
  · rw [List.length_append, List.length_append, List.length_singleton,
      show ys.length + (1 + ys'.length) = a + b + 1 by omega] at hden₂
    exact hden₂

theorem sameStatements_iff {as bs : List SyntaxTree} (ha : as.length = a) (hb : bs.length = b)
    (h₁ : u₁.Denotes x₁ (.node form.kind 0 none 0 ((as ++ bs).take ((a + b) % 2 ^ 16))))
    (h₂ : u₂.Denotes x₂
      (.node form.kind 0 none 0 ((as ++ errorTree :: bs).take ((a + b + 1) % 2 ^ 16)))) :
    SameStatements form u₁ x₁ u₂ x₂ a b ↔ a + b < 65535 := by
  constructor
  · rintro ⟨as', bs', ha', hb', -, h₂'⟩
    have hlen := h₂'.length.trans h₂.length.symm
    simp only [List.length_append, List.length_cons, List.length_take] at hlen
    omega
  · intro hlt
    refine ⟨as, bs, ha, hb, ?_, ?_⟩
    · rwa [Nat.mod_eq_of_lt (by omega), List.take_of_length_le (by simp [ha, hb])] at h₁
    · rwa [Nat.mod_eq_of_lt (by omega),
        List.take_of_length_le (by simp [ha, hb, Nat.add_assoc])] at h₂

theorem block_resynchronises_iff (hs₁ : s₁.Valid) (hs₂ : s₂.Valid)
    (hcur : s₂.stream.cursor = s₁.stream.cursor) (hblock : BlockAt form s₁ p e a b)
    (hkey : isStatementKeyword (s₁.kindAt p) = true) (hins : Inserted s₁ s₂ p k)
    (hjunk : Junk s₂ p k) : ∃ d, ∀ n ≥ d, ∃ x₁ u₁ x₂ u₂, form.parse n s₁ = .ok (x₁, u₁) ∧
      form.parse n s₂ = .ok (x₂, u₂) ∧ (u₁.stream.cursor = e + 1 ∧ u₂.stream.cursor = e + 1 + k) ∧
      (u₁.errors = s₁.errors ∧ ReportsStmt s₂ u₂) ∧
      (SameStatements form u₁ x₁ u₂ x₂ a b ↔ a + b < 65535) := by
  obtain ⟨d, hd⟩ := block_runs hs₁ hs₂ hcur hblock hkey hins hjunk
  refine ⟨d, fun n hn => ?_⟩
  obtain ⟨as, bs, x₁, u₁, x₂, u₂, ha, hb, hrun₁, hrun₂, hends, herrs, h₁, h₂⟩ := hd n hn
  exact ⟨x₁, u₁, x₂, u₂, hrun₁, hrun₂, hends, herrs, sameStatements_iff ha hb h₁ h₂⟩

/-! ### Tokens between others -/

theorem rowOf_textBetween (len : ℕ) (kind : ℕ → Token.Kind) (i j : ℕ) :
    (rowOf len kind).textBetween i j = [] := by
  show Eter.textOf [] _ = []
  simp [Eter.textOf, substr]

theorem rowOf_inserted {len len' : ℕ} {kind kind' : ℕ → Token.Kind} (hlen : len' = len + k)
    (hp : p ≤ len) (hbefore : ∀ i < p, kind' i = kind i)
    (hbehind : ∀ i, p ≤ i → i < len → kind' (i + k) = kind i) :
    Inserted (rowOf len kind) (rowOf len' kind') p k where
  inside := by rwa [rowOf_length]
  length := by rw [rowOf_length, rowOf_length, hlen]
  lit := rfl
  before i hi := by rw [rowOf_kindAt (by omega), rowOf_kindAt (by omega), hbefore i hi]
  beforeText _ _ _ _ := by rw [rowOf_textBetween, rowOf_textBetween]
  behind i hi hlt := by
    rw [rowOf_length] at hlt
    rw [rowOf_kindAt (by omega), rowOf_kindAt hlt, hbehind i hi hlt]
  behindText _ _ _ _ _ := by rw [rowOf_textBetween, rowOf_textBetween]

/-! ### Blocks of `break;` -/

theorem break_clean (hk : s.kindAt i = .kw_break) (hsemi : s.kindAt (i + 1) = .semi) :
    Clean s .stmt i (i + 2) := by
  refine ⟨1, fun n hn => ?_⟩
  obtain ⟨n, rfl⟩ : ∃ m, n = m + 1 := ⟨n - 1, by omega⟩
  show Yields (parseStmt n (run n)) _ _
  have hpeek : ((s.at i).stream.peekToken 0).tokenKind = .kw_break := (peekToken_kind _).trans hk
  refine Yields.read rfl ?_
  rw [hpeek, if_neg (by decide)]
  show Yields (parseJumpStmt .BreakStmt) _ _
  refine Yields.bind (R := fun _ t => t = (s.at i).moved) ?_ ?_
  · exact advance_of_peek (by rw [show (s.at i).stream.peek 0 = _ from hk]; decide)
  rintro tok _ rfl
  refine (expect_hit (s := (s.at i).moved) hsemi (by decide)).bind ?_
  rintro _ _ ⟨-, rfl⟩
  exact ⟨_, _, rfl, rfl, rfl⟩

/-- `{`, `k` parentheses, `break;` `m` times, and `}`. -/
def breakKind (m k i : ℕ) : Token.Kind :=
  if i = 0 then .l_brace
  else if i ≤ k then .r_paren
  else if i ≤ k + 2 * m then if (i - k) % 2 = 1 then .kw_break else .semi
  else .r_brace

def breaks (m k : ℕ) : PState := rowOf (2 * m + k + 2) (breakKind m k)

theorem breaks_valid (m k : ℕ) : (breaks m k).Valid := rowOf_valid _ _

theorem breaks_cursor (m k : ℕ) : (breaks m k).stream.cursor = 0 := rfl

theorem breaks_kindAt {l : ℕ} (hi : i < 2 * m + l + 2) : (breaks m l).kindAt i = breakKind m l i :=
  rowOf_kindAt hi

theorem breakKind_behind {l : ℕ} (hl : l < i) : breakKind m l i =
    if i - l ≤ 2 * m then if (i - l) % 2 = 1 then .kw_break else .semi else .r_brace := by
  unfold breakKind
  rw [if_neg (by omega), if_neg (by omega)]
  by_cases hi : i - l ≤ 2 * m
  · rw [if_pos (by omega), if_pos hi]
  · rw [if_neg (by omega), if_neg hi]

theorem breaks_statements {l : ℕ} (hl : l ≤ m) :
    Statements (breaks m 0) (2 * (m - l) + 1) l (2 * m + 1) := by
  induction l with
  | zero => exact .nil _
  | succ l ih =>
    have hnext : 2 * (m - l) + 1 = 2 * (m - (l + 1)) + 1 + 2 := by omega
    refine .cons (break_clean ?_ ?_) (hnext ▸ ih (by omega))
    · rw [breaks_kindAt (by omega), breakKind_behind (by omega), if_pos (by omega), if_pos (by omega)]
    · rw [breaks_kindAt (by omega), breakKind_behind (by omega), if_pos (by omega), if_neg (by omega)]

theorem breaks_block (m : ℕ) : BlockAt .block (breaks m 0) 1 (2 * m + 1) 0 m where
  opens := (breaks_kindAt (i := 0) (by omega)).trans rfl
  before := .nil 1
  behind := by simpa using breaks_statements (le_refl m)
  closes := by
    rw [breaks_kindAt (by omega), breakKind_behind (by omega), if_neg (by omega)]

theorem breaks_inserted (m : ℕ) : Inserted (breaks m 0) (breaks m 1) 1 1 := by
  refine rowOf_inserted (by omega) (by omega) (fun i hi => ?_) fun i hi hlt => ?_
  · obtain rfl : i = 0 := by omega
    rfl
  · rw [breakKind_behind (by omega), breakKind_behind (by omega), Nat.add_sub_cancel, Nat.sub_zero]

theorem breaks_junk (m : ℕ) : Junk (breaks m 1) 1 1 where
  nonempty := le_rfl
  junk i hi hlt := by
    obtain rfl : i = 1 := by omega
    rw [breaks_kindAt (by omega)]
    rfl

/-- `{ break; }` and `{ ) break; }`. -/
theorem block_resynchronises_iff_break : isStatementKeyword ((breaks 1 0).kindAt 1) = true ∧
    ∃ d, ∀ n ≥ d, ∃ x₁ u₁ x₂ u₂, BlockForm.block.parse n (breaks 1 0) = .ok (x₁, u₁) ∧
      BlockForm.block.parse n (breaks 1 1) = .ok (x₂, u₂) ∧
      (u₁.stream.cursor = 2 * 1 + 1 + 1 ∧ u₂.stream.cursor = 2 * 1 + 1 + 1 + 1) ∧
      (u₁.errors = (breaks 1 0).errors ∧ ReportsStmt (breaks 1 1) u₂) ∧
      (SameStatements .block u₁ x₁ u₂ x₂ 0 1 ↔ 0 + 1 < 65535) := by
  refine ⟨rfl, ?_⟩
  exact block_resynchronises_iff (breaks_valid _ _) (breaks_valid _ _) rfl (breaks_block 1) rfl
    (breaks_inserted 1) (breaks_junk 1)

/-- With 65535 statements and the error node no child is left. -/
theorem block_children_lost : ¬ ∀ form s₁ s₂ p e a b k, s₁.Valid → s₂.Valid →
    s₂.stream.cursor = s₁.stream.cursor → BlockAt form s₁ p e a b →
    isStatementKeyword (s₁.kindAt p) = true → Inserted s₁ s₂ p k → Junk s₂ p k →
    ∃ d, ∀ n ≥ d, ∃ x₁ u₁ x₂ u₂, form.parse n s₁ = .ok (x₁, u₁) ∧ form.parse n s₂ = .ok (x₂, u₂) ∧
      u₁.errors = s₁.errors ∧ ReportsStmt s₂ u₂ ∧ SameStatements form u₁ x₁ u₂ x₂ a b := by
  intro hclaim
  have hkey : isStatementKeyword ((breaks 65535 0).kindAt 1) = true := by
    rw [breaks_kindAt (by omega)]
    rfl
  have hcur : (breaks 65535 1).stream.cursor = (breaks 65535 0).stream.cursor := by
    rw [breaks_cursor, breaks_cursor]
  obtain ⟨d, hd⟩ := hclaim _ _ _ _ _ _ _ _ (breaks_valid _ _) (breaks_valid _ _) hcur
    (breaks_block 65535) hkey (breaks_inserted 65535) (breaks_junk 65535)
  obtain ⟨d', hd'⟩ := block_runs (breaks_valid _ _) (breaks_valid _ _) hcur (breaks_block 65535) hkey (breaks_inserted 65535) (breaks_junk 65535)
  obtain ⟨x₁, u₁, x₂, u₂, hrun₁, hrun₂, -, -, hsame⟩ := hd (max d d') (le_max_left _ _)
  obtain ⟨as, bs, x₁', u₁', x₂', u₂', ha, hb, hrun₁', hrun₂', -, -, h₁, h₂⟩ :=
    hd' (max d d') (le_max_right _ _)
  rw [hrun₁] at hrun₁'
  rw [hrun₂] at hrun₂'
  cases hrun₁'
  cases hrun₂'
  have hlt := (sameStatements_iff ha hb h₁ h₂).mp hsame
  omega

end Eter.Parser
