import Eter.ElementLists
import Eter.LayoutIndependence
import Eter.StatementStarts

/-!
# Inserted tokens

Two streams where the second one has more tokens at one place. A statement before that place or
behind it is read alike in both.
-/

namespace Eter.Parser
open Stateful

variable {s s₁ s₂ t t₁ t₂ u : PState} {p k n i j i' j' : ℕ} {call : Call} {x : NodeIndex}
  {tr : SyntaxTree} {left right : Side}

/-! ### Copies of tokens -/

/-- The tokens of the right side are, from `shift` on, of the kinds of the tokens of the left side,
with the same texts from one to another. -/
structure Copies (left right : Side) (shift : ℕ) : Prop where
  length : right.tokens.length = left.tokens.length + shift
  kind : ∀ i < left.tokens.length,
    (right.tokenAt (i + shift)).tokenKind = (left.tokenAt i).tokenKind
  text : ∀ i j, i ≤ j → j < left.tokens.length →
    Eter.textOf right.source (right.hull (i + shift) (j + shift)) =
      Eter.textOf left.source (left.hull i j)

/-- Up to a token past the last one there is the text up to the last one. -/
theorem Side.hull_past {a : Side} {i j : ℕ} (hi : i < a.tokens.length) (hj : a.tokens.length ≤ j) :
    a.hull i j = a.hull i (a.tokens.length - 1) := by
  have hlast : a.tokens.getLast? = some (a.tokenAt (a.tokens.length - 1)) := by
    have hget : a.tokens[a.tokens.length - 1]? = some a.tokens[a.tokens.length - 1] :=
      List.getElem?_eq_getElem (by omega)
    rw [List.getLast?_eq_getElem?, Side.tokenAt_of_getElem? hget, hget]
  unfold Side.hull
  rw [Side.tokenAt_of_length_le hj, hlast]
  rfl

theorem Copies.text_all (h : Copies left right k) (hij : i ≤ j) :
    Eter.textOf right.source (right.hull (i + k) (j + k)) =
      Eter.textOf left.source (left.hull i j) := by
  have hlen := h.length
  by_cases hj : j < left.tokens.length
  · exact h.text i j hij hj
  by_cases hi : i < left.tokens.length
  · rw [Side.hull_past hi (by omega), Side.hull_past (a := right) (by omega) (by omega)]
    have heq : right.tokens.length - 1 = left.tokens.length - 1 + k := by omega
    rw [heq]
    exact h.text i _ (by omega) (by omega)
  · unfold Side.hull
    rw [Side.tokenAt_of_length_le (by omega), Side.tokenAt_of_length_le (by omega), Side.tokenAt_of_length_le (by omega),
      Side.tokenAt_of_length_le (by omega), textOf_empty, textOf_empty]

/-- Two runs over copies. -/
def Copies.twin (h : Copies left right k) : Twin where
  left := left
  right := right
  shift := k
  length := h.length
  kind i := by
    by_cases hi : i < left.tokens.length
    · exact h.kind i hi
    · have hlen := h.length
      rw [Side.tokenAt_of_length_le (by omega), Side.tokenAt_of_length_le (by omega)]
  text i := h.text_all le_rfl

theorem Copies.exact (h : Copies left right k) : h.twin.Exact := fun _ _ => h.text_all

/-- The tokens of the one state are copied to those of the other. -/
def PState.CopiedTo (t₁ t₂ : PState) (k : ℕ) : Prop := Copies (t₁.side []) (t₂.side []) k

/-- What is read without a report from the one state is read so from the other one. -/
theorem PState.CopiedTo.reads (h : t₁.CopiedTo t₂ k) (h₁ : t₁.Valid) (h₂ : t₂.Valid)
    (hlit : t₂.structLitAllowed = t₁.structLitAllowed)
    (hcur : t₂.stream.cursor = t₁.stream.cursor + k) (hrun : Parser.run n call t₁ = .ok (x, u))
    (herr : u.errors = t₁.errors) (hu : u.Valid) (hx : u.Has x) :
    Yields (Parser.run n call) (fun y v => v.stream.cursor = u.stream.cursor + k ∧
      v.errors = t₂.errors ∧ ∃ tr, u.Denotes x tr ∧ v.Denotes y tr) t₂ := by
  obtain ⟨rs, -, hp, -⟩ := h₁.tree
  obtain ⟨rs', -, hp', -⟩ := h₂.tree
  have hcopies : Copies (t₁.side rs) (t₂.side rs') k := ⟨h.length, h.kind, h.text⟩
  have halike : Alike hcopies.twin ⟨t₁.structLitAllowed, 0, []⟩ t₁ t₂ :=
    { leftTokens := rfl
      leftSource := rfl
      rightTokens := rfl
      rightSource := rfl
      cursor := hcur
      past := Nat.zero_le _
      leftLit := rfl
      rightLit := hlit
      pools := ⟨[], [], by rw [hp, List.append_nil]; rfl, by rw [hp', List.append_nil]; rfl, .nil⟩
      errors := ⟨[], [], (List.append_nil _).symm, (List.append_nil _).symm, .nil, rfl⟩
      names := fun _ hp => nomatch hp }
  obtain ⟨y, v, hy, hxy, halike⟩ := run_recursive hcopies.twin n call _ t₁ t₂ halike x u hrun
  obtain ⟨es, es', hes, hes', hids, -⟩ := halike.errors
  have hnil : es = [] := by
    have hes : u.errors = t₁.errors ++ es := hes
    rw [herr] at hes
    simpa using hes.symm
  have hnil' : es' = [] := List.length_eq_zero_iff.mp (by rw [← hids.length_eq, hnil]; rfl)
  refine ⟨y, v, hy, halike.cursor, ?_, halike.denotes hcopies.exact hu hx hxy⟩
  rw [hes', hnil']
  exact List.append_nil _

/-! ### Other tokens -/

theorem PState.Valid.over (h : s.Valid) {ts : List Token} (hin : s.stream.cursor ≤ ts.length) :
    (s.over ts).Valid :=
  ⟨hin, h.tree⟩

theorem PState.Denotes.over {ts : List Token} (h : (s.over ts).Denotes x tr) : s.Denotes x tr :=
  h.later (t := s) (fun _ _ hd => ⟨hd, rfl⟩) fun _ _ hid => hid

/-! ### Insertion -/

/-- The token `i` of the stream. -/
def PState.tokenAt (s : PState) (i : ℕ) : Token := (s.at i).stream.peekToken 0

/-- The text from the start of one token to the end of another. -/
def PState.textBetween (s : PState) (i j : ℕ) : Bytes :=
  Eter.textOf s.stream.source ⟨(s.tokenAt i).tokenSpan.start, (s.tokenAt j).tokenSpan.end⟩

/-- The second stream is the first one with `k` tokens inserted before token `p`. The other tokens
are of the same kinds, with the same texts from one to another on the same side. -/
structure Inserted (s₁ s₂ : PState) (p k : ℕ) : Prop where
  inside : p ≤ s₁.stream.tokens.length
  length : s₂.stream.tokens.length = s₁.stream.tokens.length + k
  lit : s₂.structLitAllowed = s₁.structLitAllowed
  before : ∀ i < p, s₂.kindAt i = s₁.kindAt i
  beforeText : ∀ i j, i ≤ j → j < p → s₂.textBetween i j = s₁.textBetween i j
  behind : ∀ i, p ≤ i → i < s₁.stream.tokens.length → s₂.kindAt (i + k) = s₁.kindAt i
  behindText : ∀ i j, p ≤ i → i ≤ j → j < s₁.stream.tokens.length →
    s₂.textBetween (i + k) (j + k) = s₁.textBetween i j

/-- From wherever two runs stand at the tokens `i` and `i'` of their streams, both read up to the
tokens `j` and `j'` without a report, and what they read stands for one tree. -/
def ReadAlike (n : ℕ) (s₁ s₂ : PState) (call : Call) (i j i' j' : ℕ) : Prop :=
  ∀ t₁ t₂, t₁.Valid → t₂.Valid → s₁.Shares t₁ → s₂.Shares t₂ → t₁.stream.cursor = i →
    t₂.stream.cursor = i' → ∃ x₁ u₁ x₂ u₂ tr, Parser.run n call t₁ = .ok (x₁, u₁) ∧
      Parser.run n call t₂ = .ok (x₂, u₂) ∧ (t₁.Extends u₁ ∧ u₁.stream.cursor = j ∧
        u₁.errors = t₁.errors ∧ u₁.Denotes x₁ tr) ∧ t₂.Extends u₂ ∧ u₂.stream.cursor = j' ∧
        u₂.errors = t₂.errors ∧ u₂.Denotes x₂ tr

/-! ### Statements in their places -/

/-- The tokens with which a statement may start. -/
def startsStmt (k : Token.Kind) : Bool :=
  startsExprStmt k || k = .kw_let || k = .kw_if || k = .kw_for || k = .kw_while || k = .l_brace ||
  k = .kw_ret || k = .kw_break || k = .kw_continue || k = .kw_unsafe_

theorem parseStmt_bad {rec : Rec} (hk : startsStmt (s.stream.peek 0) = false) :
    parseStmt n rec s = parseBadStmt (s.stream.peekToken 0) s := by
  obtain ⟨f, hf, hbad⟩ : ∃ f, parseStmt n rec = Parser.peekToken >>= f ∧
      ∀ tok, startsStmt tok.tokenKind = false → f tok = parseBadStmt tok := by
    refine ⟨_, rfl, fun tok hk => ?_⟩
    split_ifs with hexpr
    · simp [startsStmt, hexpr] at hk
    · split <;> rename_i hkind <;> first | rfl | (rw [hkind] at hk; cases hk)
  rw [hf]
  show f (s.stream.peekToken 0) s = _
  rw [hbad _ (by rw [peekToken_kind, hk])]

theorem Clean.stmt_starts (h : Clean s .stmt i j) : startsStmt (s.kindAt i) = true := by
  by_contra hk
  obtain ⟨n, x, t, hrun, herr⟩ := h.run
  change parseStmt n (Parser.run n) _ = _ at hrun
  rw [parseStmt_bad (s := s.at i) (Bool.eq_false_iff.mpr hk)] at hrun
  exact (Reports.parseBadStmt _).false_of_run hrun herr

theorem Clean.stmt_not_eof (h : Clean s .stmt i j) : s.kindAt i ≠ .eof := by
  intro hk
  have hstarts := h.stmt_starts
  rw [hk] at hstarts
  cases hstarts

theorem PState.Valid.stmt_moves (hs : s.Valid) (hk : s.stream.peek 0 ≠ .eof) (hn : s.depth ≤ n) :
    Yields (Parser.run n .stmt) (fun _ t => s.stream.cursor < t.stream.cursor) s := by
  obtain ⟨hs, hh⟩ := hs.holds
  unfold PState.depth at hn
  refine (((run_recurses _ n).stmt (by omega)).yields hh hk).mono fun x t ht => ?_
  have hbudget := ht.budget
  have hlt := hh.cursor_lt hk
  dsimp only at hbudget hlt
  omega

/-- A statement that is read consumes a token. -/
theorem Clean.stmt_forward (h : Clean s .stmt i j) (hs : s.Valid) : i < j := by
  have hk := h.stmt_not_eof
  obtain ⟨d, hd⟩ := h
  have hmoves := (hs.at (lt_of_kindAt hk).le).stmt_moves (n := max d s.depth) hk (le_max_right _ _)
  obtain ⟨_, _, -, hlt, hj, -⟩ := hmoves.and (hd _ (le_max_left _ _))
  exact hj ▸ hlt

/-! ### Tokens of other states -/

theorem PState.kindAt_eq (s : PState) (i : ℕ) : s.kindAt i = (s.tokenAt i).tokenKind :=
  (peekToken_kind _).symm

theorem PState.tokenAt_of_lt (hi : i < s.stream.tokens.length) :
    s.stream.tokens[i]? = some (s.tokenAt i) := by
  unfold PState.tokenAt TokenStream.peekToken PState.at
  dsimp only
  rw [Nat.add_zero, List.getElem?_eq_getElem hi]

theorem PState.Shares.tokenAt (h : s.Shares t) (i : ℕ) : t.tokenAt i = s.tokenAt i := by
  unfold PState.tokenAt TokenStream.peekToken TokenStream.endToken PState.at
  rw [h.tokens]

theorem PState.Shares.textBetween (h : s.Shares t) (i j : ℕ) :
    t.textBetween i j = s.textBetween i j := by
  unfold PState.textBetween
  rw [h.tokenAt, h.tokenAt, h.source]

/-- Copies in other tokens of two states. -/
theorem copiedTo_over {ts₁ ts₂ : List Token} {f : ℕ → ℕ} {l : ℕ} (hlen₁ : ts₁.length = l)
    (hlen₂ : ts₂.length = l + k) (h₁ : ∀ i < l, ts₁[i]? = some (t₁.tokenAt (f i)))
    {g : ℕ → ℕ} (h₂ : ∀ i < l, ts₂[i + k]? = some (t₂.tokenAt (g i)))
    (hkind : ∀ i < l, t₂.kindAt (g i) = t₁.kindAt (f i))
    (htext : ∀ i j, i ≤ j → j < l →
      t₂.textBetween (g i) (g j) = t₁.textBetween (f i) (f j)) :
    (t₁.over ts₁).CopiedTo (t₂.over ts₂) k where
  length := by
    show ts₂.length = ts₁.length + k
    rw [hlen₁, hlen₂]
  kind i hi := by
    have hi : i < l := hlen₁ ▸ hi
    rw [Side.tokenAt_of_getElem? (x := (t₁.over ts₁).side []) (h₁ i hi),
      Side.tokenAt_of_getElem? (x := (t₂.over ts₂).side []) (h₂ i hi), ← PState.kindAt_eq,
      ← PState.kindAt_eq, hkind i hi]
  text i j hij hj := by
    have hj : j < l := hlen₁ ▸ hj
    have hi : i < l := hij.trans_lt hj
    unfold Side.hull
    rw [Side.tokenAt_of_getElem? (x := (t₁.over ts₁).side []) (h₁ i hi),
      Side.tokenAt_of_getElem? (x := (t₁.over ts₁).side []) (h₁ j hj),
      Side.tokenAt_of_getElem? (x := (t₂.over ts₂).side []) (h₂ i hi),
      Side.tokenAt_of_getElem? (x := (t₂.over ts₂).side []) (h₂ j hj)]
    exact htext i j hij hj

/-! ### Before the place -/

theorem Inserted.copied_before (h : Inserted s₁ s₂ p k) (h₁ : s₁.Shares t₁) (h₂ : s₂.Shares t₂) :
    (t₁.over (t₁.stream.tokens.take p)).CopiedTo (t₂.over (t₂.stream.tokens.take p)) 0 := by
  have hlen := h.length
  have hin := h.inside
  have htake : ∀ t : PState, ∀ i < p, p ≤ t.stream.tokens.length →
      (t.stream.tokens.take p)[i]? = some (t.tokenAt i) := by
    intro t i hi hle
    rw [List.getElem?_take_of_lt hi, PState.tokenAt_of_lt (by omega)]
  have hp₁ : p ≤ t₁.stream.tokens.length := by rw [h₁.tokens]; omega
  have hp₂ : p ≤ t₂.stream.tokens.length := by rw [h₂.tokens]; omega
  refine copiedTo_over (f := id) (g := id) (l := p) (by simp [hp₁]) (by simp [hp₂])
    (fun i hi => htake t₁ i hi hp₁) (fun i hi => htake t₂ i hi hp₂) ?_ ?_
  · intro i hi
    rw [h₁.kindAt, h₂.kindAt]
    exact h.before i hi
  · intro i j hij hj
    rw [h₁.textBetween, h₂.textBetween]
    exact h.beforeText i j hij hj

theorem window_take {ts : List Token} (hp : p ≤ ts.length) : Window 0 p ts (ts.take p) where
  left := hp
  right := by simp [hp]
  same i _ hi := List.getElem?_take_of_lt hi

theorem Window.symm {q : ℕ} {ts ts' : List Token} (h : Window q p ts ts') : Window q p ts' ts :=
  ⟨h.right, h.left, fun i hq hi => (h.same i hq hi).symm⟩

theorem noElse_take (ts : List Token) : NoElse p (ts.take p) := by
  intro tok htok
  rw [List.getElem?_eq_none (by simp)] at htok
  cases htok

theorem noElse_of_kindAt (h : s.kindAt p ≠ .kw_else) : NoElse p s.stream.tokens := by
  intro tok htok hkind
  refine h ?_
  have hlt := (List.getElem?_eq_some_iff.mp htok).1
  rw [PState.tokenAt_of_lt hlt] at htok
  rw [PState.kindAt_eq, Option.some.inj htok, hkind]

/-- A statement before the place is read alike, if no `else` is inserted. -/
theorem Inserted.stmt_before (h : Inserted s₁ s₂ p k) (hs₁ : s₁.Valid) (hclean : Clean s₁ .stmt i j)
    (hj : j ≤ p) (helse₁ : s₁.kindAt p ≠ .kw_else) (helse₂ : s₂.kindAt p ≠ .kw_else) :
    ∃ d, ∀ n ≥ d, ReadAlike n s₁ s₂ .stmt i j i j := by
  have hij := hclean.stmt_forward hs₁
  have hlen := h.length
  have hin := h.inside
  have hi : i < s₁.stream.tokens.length := by omega
  obtain ⟨d, hd⟩ := hclean.reads hs₁ hi.le hclean.stmt_not_eof
  refine ⟨max d (s₂.depth + 1), fun n hn t₁ t₂ ht₁ ht₂ h₁ h₂ hc₁ hc₂ => ?_⟩
  obtain ⟨n, rfl⟩ : ∃ m, n = m + 1 := ⟨n - 1, by omega⟩
  obtain ⟨x, u, hrun, -, hext, hhas, hcur, herr⟩ := hd (n + 1) (le_of_max_le_left hn) t₁ ht₁ h₁ hc₁
  have hp₁ : p ≤ t₁.stream.tokens.length := by rw [h₁.tokens]; exact hin
  have hp₂ : p ≤ t₂.stream.tokens.length := by rw [h₂.tokens]; omega
  have hdepth₂ : t₂.depth ≤ n := by
    rw [h₂.depth]
    have := le_of_max_le_right hn
    omega
  have hdepth₁ : t₁.depth ≤ n := by
    unfold PState.depth at hdepth₂ ⊢
    rw [h₁.tokens]
    rw [h₂.tokens] at hdepth₂
    omega
  -- Without the tokens behind the place the first run is the same.
  have hrun₁ := stmt_closes (window_take hp₁) (noElse_of_kindAt (by rwa [h₁.kindAt]))
    (noElse_take _) ht₁ hdepth₁ rfl (Or.inl rfl) (by omega) hrun herr (by omega)
  have hcut₁ : (t₁.over (t₁.stream.tokens.take p)).Valid := ht₁.over (by simp; omega)
  have hcut₂ : (t₂.over (t₂.stream.tokens.take p)).Valid := ht₂.over (by simp; omega)
  have hlit : t₂.structLitAllowed = t₁.structLitAllowed := by rw [h₁.lit, h₂.lit, h.lit]
  obtain ⟨y, v, hrun₂, hv, herrv, tr, htr₁, htr₂⟩ := (h.copied_before h₁ h₂).reads hcut₁ hcut₂ hlit
    (hc₂.trans hc₁.symm) hrun₁ herr (hext.valid.over (by simp; omega)) hhas
  -- With the tokens behind the place the second run is the same.
  have hdepth : (t₂.over (t₂.stream.tokens.take p)).depth ≤ n := by
    unfold PState.depth at hdepth₂ ⊢
    refine le_trans ?_ hdepth₂
    have : (t₂.stream.tokens.take p).length ≤ t₂.stream.tokens.length := List.length_take_le' _ _
    show 4 * (t₂.stream.tokens.take p).length + 5 ≤ _
    omega
  have hcur₂ : v.stream.cursor = j := hv.trans hcur
  have hrun₂' := stmt_closes (window_take hp₂).symm (noElse_take _)
    (noElse_of_kindAt (by rwa [h₂.kindAt])) hcut₂ hdepth rfl (Or.inl rfl)
    (show t₂.stream.cursor < p by omega) hrun₂ herrv (by omega)
  have hrun₂'' : Parser.run (n + 1) .stmt t₂ = .ok (y, v.over t₂.stream.tokens) := hrun₂'
  have hstart₂ : Starts (t₂.stream.peek 0) .stmt := by
    rw [PState.peek_of_shares h₂ hc₂, h.before i (by omega)]
    exact hclean.stmt_not_eof
  obtain ⟨hext₂, -⟩ := (ht₂.runs hstart₂ (hdepth₂.trans (Nat.le_succ n))).of_eq hrun₂''
  exact ⟨x, u, y, _, tr, hrun, hrun₂'', ⟨hext, hcur, herr, htr₁.over⟩, hext₂, hcur₂, herrv,
    htr₂.later (fun _ _ hd => ⟨hd, rfl⟩) fun _ _ hid => hid⟩

/-! ### Behind the place -/

/-- The tokens with token `p` in the place of every token before it. -/
def PState.padded (s : PState) (p : ℕ) : List Token :=
  (List.range s.stream.tokens.length).map fun i => s.tokenAt (max i p)

theorem PState.padded_length (s : PState) (p : ℕ) :
    (s.padded p).length = s.stream.tokens.length := by
  simp [PState.padded]

theorem PState.padded_getElem? (hi : i < s.stream.tokens.length) :
    (s.padded p)[i]? = some (s.tokenAt (max i p)) := by
  unfold PState.padded
  rw [List.getElem?_map, List.getElem?_range hi]
  rfl

theorem window_padded (s : PState) (p : ℕ) :
    Window p s.stream.tokens.length s.stream.tokens (s.padded p) where
  left := le_rfl
  right := (s.padded_length p).ge
  same i hq hi := by rw [PState.padded_getElem? hi, max_eq_left hq, PState.tokenAt_of_lt hi]

theorem Inserted.copied_behind (h : Inserted s₁ s₂ p k) (h₁ : s₁.Shares t₁) (h₂ : s₂.Shares t₂)
    (hp : p < s₁.stream.tokens.length) :
    (t₁.over (t₁.padded p)).CopiedTo (t₂.over (t₂.padded (p + k))) k := by
  have hlen := h.length
  have hlen₁ : t₁.stream.tokens.length = s₁.stream.tokens.length := by rw [h₁.tokens]
  have hlen₂ : t₂.stream.tokens.length = s₁.stream.tokens.length + k := by rw [h₂.tokens, hlen]
  refine copiedTo_over (f := fun i => max i p) (g := fun i => max i p + k)
    (l := s₁.stream.tokens.length) (by rw [PState.padded_length, hlen₁])
    (by rw [PState.padded_length, hlen₂])
    (fun i hi => PState.padded_getElem? (hlen₁ ▸ hi)) ?_ ?_ ?_
  · intro i hi
    rw [PState.padded_getElem? (by omega), Nat.add_max_add_right]
  · intro i hi
    rw [h₁.kindAt, h₂.kindAt]
    exact h.behind _ (le_max_right _ _) (by omega)
  · intro i j hij hj
    rw [h₁.textBetween, h₂.textBetween]
    exact h.behindText _ _ (le_max_right _ _) (by omega) (by omega)

/-- A statement behind the place is read alike, if it has a keyword where it stands at the place. -/
theorem Inserted.stmt_behind (h : Inserted s₁ s₂ p k) (hs₁ : s₁.Valid) (hclean : Clean s₁ .stmt i j)
    (hi : p ≤ i) (hj : j < s₁.stream.tokens.length)
    (hkey : i = p → isStatementKeyword (s₁.kindAt p) = true) :
    ∃ d, ∀ n ≥ d, ReadAlike n s₁ s₂ .stmt i j (i + k) (j + k) := by
  have hij := hclean.stmt_forward hs₁
  have hlen := h.length
  obtain ⟨d, hd⟩ := hclean.reads hs₁ (by omega) hclean.stmt_not_eof
  refine ⟨max d (s₂.depth + 2), fun n hn t₁ t₂ ht₁ ht₂ h₁ h₂ hc₁ hc₂ => ?_⟩
  obtain ⟨n, rfl⟩ : ∃ m, n = m + 1 + 1 := ⟨n - 2, by omega⟩
  obtain ⟨x, u, hrun, -, hext, hhas, hcur, herr⟩ :=
    hd (n + 1 + 1) (le_of_max_le_left hn) t₁ ht₁ h₁ hc₁
  have hlen₁ : t₁.stream.tokens.length = s₁.stream.tokens.length := by rw [h₁.tokens]
  have hlen₂ : t₂.stream.tokens.length = s₁.stream.tokens.length + k := by rw [h₂.tokens, hlen]
  have hdepth₂ : t₂.depth ≤ n := by
    rw [h₂.depth]
    have := le_of_max_le_right hn
    omega
  -- With other tokens before the place the first run is the same.
  have hrun₁ := stmt_inside (window_padded t₁ p) rfl (by omega)
    (fun hc => by
      rw [PState.peek_of_shares h₁ hc]
      exact hkey (by omega)) hrun herr (by omega)
  have hpad₁ : (t₁.over (t₁.padded p)).Valid := ht₁.over (by rw [PState.padded_length]; omega)
  have hpad₂ : (t₂.over (t₂.padded (p + k))).Valid :=
    ht₂.over (by rw [PState.padded_length]; omega)
  have hlit : t₂.structLitAllowed = t₁.structLitAllowed := by rw [h₁.lit, h₂.lit, h.lit]
  obtain ⟨y, v, hrun₂, hv, herrv, tr, htr₁, htr₂⟩ := (h.copied_behind h₁ h₂ (by omega)).reads hpad₁
    hpad₂ hlit (show t₂.stream.cursor = t₁.stream.cursor + k by omega) hrun₁ herr
    (hext.valid.over (by rw [PState.padded_length]; omega)) hhas
  -- With the tokens of the second stream before the place the second run is the same.
  have hcur₂ : v.stream.cursor = j + k := by
    rw [hv]
    exact congrArg (· + k) hcur
  have hstart₂ : t₂.stream.peek 0 = s₁.kindAt i := by
    rw [PState.peek_of_shares h₂ hc₂, h.behind i hi (by omega)]
  have hpeek : (t₂.over (t₂.padded (p + k))).stream.peek 0 = t₂.stream.peek 0 :=
    (window_padded t₂ (p + k)).peek rfl (by omega) (by omega)
  have hrun₂' := stmt_inside (s := t₂.over (t₂.padded (p + k))) (window_padded t₂ (p + k)).symm rfl
    (show p + k ≤ t₂.stream.cursor by omega)
    (fun hc => by
      have hc : t₂.stream.cursor = p + k := hc
      have hip : i = p := by omega
      rw [hpeek, hstart₂, hip]
      exact hkey hip) hrun₂ herrv (by omega)
  have hrun₂'' : Parser.run (n + 1 + 1) .stmt t₂ = .ok (y, v.over t₂.stream.tokens) := hrun₂'
  have hstarts : Starts (t₂.stream.peek 0) .stmt := by
    rw [hstart₂]
    exact hclean.stmt_not_eof
  obtain ⟨hext₂, -⟩ := (ht₂.runs hstarts (by omega)).of_eq hrun₂''
  exact ⟨x, u, y, _, tr, hrun, hrun₂'', ⟨hext, hcur, herr, htr₁.over⟩, hext₂, hcur₂, herrv,
    htr₂.later (fun _ _ hd => ⟨hd, rfl⟩) fun _ _ hid => hid⟩

end Eter.Parser
