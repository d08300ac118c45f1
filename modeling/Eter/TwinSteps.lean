import Eter.TwinInvariant

/-!
# Rules for two runs of one step

`Matches` says that two computations keep the runs alike and give results that are alike. There is
a rule for each step of the parser, and productions only combine them.
-/

namespace Eter.Parser
open Stateful Diag

variable {w : Twin} {f : Frame} {s t : PState} {α α' β β' γ γ' : Type} {i : ℕ} {k : Token.Kind}

/-! ### Judgements -/

def Matches (w : Twin) (f : Frame) (V : α → α' → Prop) (m : ParserM α) (m' : ParserM α') : Prop :=
  Relates (Alike w f) m m' fun a s b t => V a b ∧ Alike w f s t

/-- The same where the left run stands at token `i`, which is of kind `k`. -/
def MatchesAt (w : Twin) (f : Frame) (i : ℕ) (k : Token.Kind) (V : α → α' → Prop) (m : ParserM α)
    (m' : ParserM α') : Prop :=
  Relates (fun s t => Alike w f s t ∧ s.stream.cursor = i ∧ s.stream.peek 0 = k) m m'
    fun a s b t => V a b ∧ Alike w f s t

/-- Two computations that give identifiers for texts that are alike. -/
def Names (w : Twin) (f : Frame) (sliced : Bool) (m m' : ParserM InternedStr) : Prop :=
  Relates (Alike w f) m m' fun a s b t => Alike w (f.hold ⟨a, b, sliced⟩) s t

variable {V : α → α' → Prop} {W : β → β' → Prop} {m : ParserM α} {m' : ParserM α'}
  {g : α → ParserM β} {g' : α' → ParserM β'}

theorem Matches.pure {a : α} {b : α'} (h : V a b) : Matches w f V (pure a) (pure b) :=
  Relates.pure fun _ _ hI => ⟨h, hI⟩

theorem Matches.bind (hm : Matches w f V m m')
    (hg : ∀ a b, V a b → Matches w f W (g a) (g' b)) : Matches w f W (m >>= g) (m' >>= g') :=
  Relates.bind hm fun a b s t ⟨hV, hI⟩ => hg a b hV s t hI

/-- A computation before one whose result is followed in another way. -/
theorem Matches.before {J : β → PState → β' → PState → Prop} (hm : Matches w f V m m')
    (hg : ∀ a b, V a b → Relates (Alike w f) (g a) (g' b) J) :
    Relates (Alike w f) (m >>= g) (m' >>= g') J :=
  Relates.bind hm fun a b s t ⟨hV, hI⟩ => hg a b hV s t hI

/-- Names that are given count as held afterwards. -/
theorem Relates.bindHeld {p : α → α' → NamePair}
    (hm : Relates (Alike w f) m m' fun a s b t => Alike w (f.hold (p a b)) s t)
    (hg : ∀ a b, Matches w (f.hold (p a b)) W (g a) (g' b)) :
    Matches w f W (m >>= g) (m' >>= g') :=
  Relates.bind hm fun a b => Relates.mono (hg a b) (fun _ _ hI => hI)
    fun _ _ _ _ h => ⟨h.1, h.2.unhold⟩

theorem Names.bind {sliced : Bool} {m m' : ParserM InternedStr} {g : InternedStr → ParserM β}
    {g' : InternedStr → ParserM β'} (hm : Names w f sliced m m')
    (hg : ∀ a b, Matches w (f.hold ⟨a, b, sliced⟩) W (g a) (g' b)) :
    Matches w f W (m >>= g) (m' >>= g') :=
  Relates.bindHeld hm hg

/-- What holds wherever the left run stands holds where it stands at a certain token. -/
theorem Matches.anywhere (hm : Matches w f V m m') : MatchesAt w f i k V m m' :=
  Relates.mono hm (fun _ _ hI => hI.1) fun _ _ _ _ h => h

theorem Matches.fromToken (hm : ∀ i k, MatchesAt w f i k V m m') : Matches w f V m m' :=
  fun s t hI => hm s.stream.cursor (s.stream.peek 0) s t ⟨hI, rfl, rfl⟩

/-- The turns of two loops are alike. -/
def TurnAlike (V : β → β' → Prop) (W : γ → γ' → Prop) : Turn β γ → Turn β' γ' → Prop
  | .again b, .again b' => V b b'
  | .done c, .done c' => W c c'
  | _, _ => False

theorem Matches.iterate {V : β → β' → Prop} {W : γ → γ' → Prop} {turn : β → ParserM (Turn β γ)}
    {turn' : β' → ParserM (Turn β' γ')}
    (hturn : ∀ b b', V b b' → Matches w f (TurnAlike V W) (turn b) (turn' b')) (n : ℕ) {b : β}
    {b' : β'} (h : V b b') : Matches w f W (iterate turn n b) (iterate turn' n b') := by
  refine Relates.mono (Relates.iterate
    (K := fun c s c' t => V c c' ∧ Alike w f s t) (J := fun c s c' t => W c c' ∧ Alike w f s t)
    ?_ n b b') (fun _ _ hI => ⟨h, hI⟩) fun _ _ _ _ hJ => hJ
  intro c c' s t ⟨hV, hI⟩ r s' hr
  obtain ⟨r', t', hr', hR, hI'⟩ := hturn c c' hV s t hI r s' hr
  refine ⟨r', t', hr', ?_⟩
  cases r <;> cases r' <;> first | exact hR.elim | exact ⟨hR, hI'⟩

/-! ### Reading -/

theorem Alike.peek (h : Alike w f s t) (o : ℕ) : t.stream.peek o = s.stream.peek o := by
  rw [Side.peek_eq h.leftTokens, Side.peek_eq h.rightTokens, h.cursor, ← w.kind]
  congr 2
  omega

theorem Matches.peekAt (o : ℕ) : Matches w f Eq (peekAt o) (peekAt o) := by
  intro s t hI a s' ha
  cases ha
  exact ⟨_, t, rfl, (hI.peek o).symm, hI⟩

theorem Matches.peek : Matches w f Eq peek peek := Matches.peekAt 0

theorem Matches.check (k : Token.Kind) : Matches w f Eq (check k) (check k) := by
  intro s t hI a s' ha
  cases ha
  refine ⟨_, t, rfl, ?_, hI⟩
  show s.stream.check k = t.stream.check k
  unfold TokenStream.check
  rw [hI.peek]

theorem Matches.atEof : Matches w f Eq atEof atEof := Matches.check .eof

theorem Alike.peekToken (h : Alike w f s t) :
    s.stream.peekToken 0 = w.left.tokenAt s.stream.cursor ∧
      t.stream.peekToken 0 = w.right.tokenAt (s.stream.cursor + w.shift) := by
  rw [Side.peekToken_eq h.leftTokens, Side.peekToken_eq h.rightTokens, h.cursor]
  exact ⟨rfl, rfl⟩

theorem Matches.peekToken : Matches w f (TokenAlike w) peekToken peekToken := by
  intro s t hI a s' ha
  cases ha
  refine ⟨_, t, rfl, ?_, hI⟩
  rw [hI.peekToken.1, hI.peekToken.2]
  exact TokenAlike.at w _

theorem Matches.errorsSize : Matches w f (SizeAlike w) errorsSize errorsSize := by
  intro s t hI a s' ha
  cases ha
  obtain ⟨es, es', hes, hes', halike, -⟩ := hI.errors
  refine ⟨_, t, rfl, ⟨es.length, ?_, ?_⟩, hI⟩
  · rw [hes, List.length_append]
  · show t.errors.length = _
    rw [hes', List.length_append, halike.length_eq]

/-- Whatever the spans of the previous tokens are, they are read alike. -/
theorem Matches.previous : Matches w f (fun _ _ => True) previous previous := by
  intro s t hI a s' ha
  cases ha
  exact ⟨_, t, rfl, trivial, hI⟩

theorem TokenStream.previous_of_pos {x : Side} {st : TokenStream} (ht : st.tokens = x.tokens)
    {c : ℕ} (hc : st.cursor = c + 1) : st.previous = x.tokenAt c := by
  unfold TokenStream.previous Side.tokenAt TokenStream.peekToken TokenStream.endToken
  rw [hc, ht]
  simp [TokenStream.fresh]

/-- Behind a consumed token the previous one is where it was read. -/
theorem Alike.previous (h : Alike w f s t) (hpast : 1 ≤ f.past) :
    ∃ j, s.stream.cursor = j + 1 ∧ s.stream.previous = w.left.tokenAt j ∧
      t.stream.previous = w.right.tokenAt (j + w.shift) := by
  have hp := h.past
  have hc := h.cursor
  obtain ⟨j, hj⟩ : ∃ j, s.stream.cursor = j + 1 := ⟨s.stream.cursor - 1, by omega⟩
  refine ⟨j, hj, TokenStream.previous_of_pos h.leftTokens hj, ?_⟩
  exact TokenStream.previous_of_pos h.rightTokens (by omega)

theorem Matches.previousToken (hpast : 1 ≤ f.past) :
    Matches w f (TokenAlike w) Parser.previous Parser.previous := by
  intro s t hI a s' ha
  cases ha
  obtain ⟨j, -, hl, hr⟩ := hI.previous hpast
  refine ⟨_, t, rfl, ?_, hI⟩
  rw [hl, hr]
  exact TokenAlike.at w j

/-- The previous token is not before the last one that is known to be consumed. -/
theorem Relates.bindPrevious (hpast : 1 ≤ f.past) {g : Token → ParserM β} {g' : Token → ParserM β'}
    {J : β → PState → β' → PState → Prop}
    (hg : ∀ j, f.past ≤ j + 1 → Relates (Alike w (f.beyond (j + 1))) (g (w.left.tokenAt j))
      (g' (w.right.tokenAt (j + w.shift))) J) :
    Relates (Alike w f) (Parser.previous >>= g) (Parser.previous >>= g') J := by
  intro s t hI b s' hb
  obtain ⟨j, hj, hl, hr⟩ := hI.previous hpast
  change g s.stream.previous s = _ at hb
  show ∃ b' t', g' t.stream.previous t = _ ∧ _
  rw [hl] at hb
  rw [hr]
  exact hg j (hj ▸ hI.past) s t { hI with past := hj.ge } b s' hb

theorem Matches.bindPrevious (hpast : 1 ≤ f.past) {g : Token → ParserM β} {g' : Token → ParserM β'}
    (hg : ∀ j, f.past ≤ j + 1 → Matches w (f.beyond (j + 1)) W (g (w.left.tokenAt j))
      (g' (w.right.tokenAt (j + w.shift)))) :
    Matches w f W (Parser.previous >>= g) (Parser.previous >>= g') :=
  Relates.bindPrevious hpast fun j hj => Relates.mono (hg j hj) (fun _ _ hI => hI)
    fun _ _ _ _ h => ⟨h.1, h.2.back hj⟩

/-! ### At a known token -/

section At

variable {g : Token.Kind → ParserM β} {g' : Token.Kind → ParserM β'} {h : Bool → ParserM β}
  {h' : Bool → ParserM β'} {r : Token → ParserM β} {r' : Token → ParserM β'}

theorem MatchesAt.peek (hg : MatchesAt w f i k W (g k) (g' k)) :
    MatchesAt w f i k W (Parser.peek >>= g) (Parser.peek >>= g') := by
  intro s t ⟨hI, hi, hk⟩ b s' hb
  change g (s.stream.peek 0) s = _ at hb
  rw [hk] at hb
  obtain ⟨b', t', hb', hW⟩ := hg s t ⟨hI, hi, hk⟩ b s' hb
  refine ⟨b', t', ?_, hW⟩
  show g' (t.stream.peek 0) t = _
  rw [hI.peek, hk]
  exact hb'

theorem MatchesAt.check (k' : Token.Kind)
    (hh : MatchesAt w f i k W (h (k = k')) (h' (k = k'))) :
    MatchesAt w f i k W (Parser.check k' >>= h) (Parser.check k' >>= h') := by
  intro s t ⟨hI, hi, hk⟩ b s' hb
  change h (s.stream.peek 0 = k') s = _ at hb
  rw [hk] at hb
  obtain ⟨b', t', hb', hW⟩ := hh s t ⟨hI, hi, hk⟩ b s' hb
  refine ⟨b', t', ?_, hW⟩
  show h' (t.stream.peek 0 = k') t = _
  rw [hI.peek, hk]
  exact hb'

theorem MatchesAt.peekToken (hr : (w.left.tokenAt i).tokenKind = k →
      MatchesAt w f i k W (r (w.left.tokenAt i)) (r' (w.right.tokenAt (i + w.shift)))) :
    MatchesAt w f i k W (Parser.peekToken >>= r) (Parser.peekToken >>= r') := by
  intro s t ⟨hI, hi, hk⟩ b s' hb
  have hkind : (w.left.tokenAt i).tokenKind = k := by
    rw [← hk, ← hi, Side.peek_eq hI.leftTokens, Nat.add_zero]
  obtain ⟨hl, hr'⟩ := hI.peekToken
  rw [hi] at hl hr'
  change r (s.stream.peekToken 0) s = _ at hb
  rw [hl] at hb
  obtain ⟨b', t', hb', hW⟩ := hr hkind s t ⟨hI, hi, hk⟩ b s' hb
  refine ⟨b', t', ?_, hW⟩
  show r' (t.stream.peekToken 0) t = _
  rw [hr']
  exact hb'

end At

/-! ### Moving on -/

theorem Side.advance_eq {x : Side} {st : TokenStream} (ht : st.tokens = x.tokens) :
    st.advance = (x.tokenAt st.cursor,
      if st.cursor < x.tokens.length then { st with cursor := st.cursor + 1 } else st) := by
  rw [← Nat.add_zero st.cursor, ← x.peekToken_eq ht, Nat.add_zero]
  unfold TokenStream.advance TokenStream.peekToken
  rw [Nat.add_zero, ← ht]
  cases hc : st.tokens[st.cursor]? with
  | some t =>
    have hlt := (List.getElem?_eq_some_iff.mp hc).1
    simp [hlt]
  | none =>
    have hle := List.getElem?_eq_none_iff.mp hc
    simp [hle]

/-- Both runs move on, or both stand at the end. -/
theorem Alike.advance (h : Alike w f s t) :
    Alike w (f.beyond (if s.stream.cursor < w.left.tokens.length then s.stream.cursor + 1
        else s.stream.cursor))
      { s with stream := s.stream.advance.2 } { t with stream := t.stream.advance.2 } := by
  have hc := h.cursor
  have hlen := w.length
  rw [Side.advance_eq h.leftTokens, Side.advance_eq h.rightTokens]
  by_cases hlt : s.stream.cursor < w.left.tokens.length
  · have hlt' : t.stream.cursor < w.right.tokens.length := by omega
    rw [if_pos hlt, if_pos hlt, if_pos hlt']
    exact ⟨h.leftTokens, h.leftSource, h.rightTokens, h.rightSource, by dsimp only; omega, le_rfl,
      h.leftLit, h.rightLit, h.pools, h.errors, h.names⟩
  · have hlt' : ¬ t.stream.cursor < w.right.tokens.length := by omega
    rw [if_neg hlt, if_neg hlt, if_neg hlt']
    exact { h with past := le_rfl }

theorem Matches.advance : Matches w f (TokenAlike w) Parser.advance Parser.advance := by
  intro s t hI a s' ha
  cases ha
  refine ⟨_, _, rfl, ?_, hI.advance.back ?_⟩
  · rw [Side.advance_eq hI.leftTokens, Side.advance_eq hI.rightTokens, hI.cursor]
    exact TokenAlike.at w _
  · have hp := hI.past
    split_ifs <;> omega

theorem Alike.cursor_lt (h : Alike w f s t) (hk : s.stream.peek 0 ≠ .eof) :
    s.stream.cursor < w.left.tokens.length := by
  by_contra hge
  refine hk ?_
  unfold TokenStream.peek
  rw [h.leftTokens, List.getElem?_eq_none (by simpa using hge)]

/-- At a token other than the end of the file the runs do move on. -/
theorem MatchesAt.advance (hk : k ≠ .eof) {r : Token → ParserM β} {r' : Token → ParserM β'}
    (hr : Matches w (f.beyond (i + 1)) W (r (w.left.tokenAt i))
      (r' (w.right.tokenAt (i + w.shift)))) :
    MatchesAt w f i k W (Parser.advance >>= r) (Parser.advance >>= r') := by
  intro s t ⟨hI, hi, hkind⟩ b s' hb
  have hlt := hI.cursor_lt (hkind ▸ hk)
  have hadv := hI.advance
  have hp := hI.past
  rw [if_pos hlt, hi] at hadv
  change r s.stream.advance.1 { s with stream := s.stream.advance.2 } = _ at hb
  have hl : s.stream.advance.1 = w.left.tokenAt i := by
    rw [Side.advance_eq hI.leftTokens, hi]
  have hr' : t.stream.advance.1 = w.right.tokenAt (i + w.shift) := by
    rw [Side.advance_eq hI.rightTokens, hI.cursor, hi]
  rw [hl] at hb
  obtain ⟨b', t', hb', hW, hI'⟩ := hr _ _ hadv b s' hb
  refine ⟨b', t', ?_, hW, hI'.back (by omega)⟩
  show r' t.stream.advance.1 { t with stream := t.stream.advance.2 } = _
  rw [hr']
  exact hb'

/-- Either the token is there and both runs move on, or neither does. -/
theorem Relates.bindConsume (hk : k ≠ .eof) {h : Bool → ParserM β} {h' : Bool → ParserM β'}
    {J : β → PState → β' → PState → Prop}
    (hit : ∀ i, f.past ≤ i → Relates (Alike w (f.beyond (i + 1))) (h true) (h' true) J)
    (miss : Relates (Alike w f) (h false) (h' false) J) :
    Relates (Alike w f) (consume k >>= h) (consume k >>= h') J := by
  intro s t hI b s' hb
  change h (s.stream.consume k).1 { s with stream := (s.stream.consume k).2 } = _ at hb
  show ∃ b' t', h' (t.stream.consume k).1 { t with stream := (t.stream.consume k).2 } = _ ∧ _
  unfold TokenStream.consume TokenStream.check at hb ⊢
  rw [hI.peek]
  by_cases hpeek : s.stream.peek 0 = k
  · rw [if_pos (by simpa using hpeek)] at hb
    rw [if_pos (by simpa using hpeek)]
    have hlt := hI.cursor_lt (hpeek ▸ hk)
    have hadv := hI.advance
    rw [if_pos hlt] at hadv
    exact hit s.stream.cursor hI.past _ _ hadv b s' hb
  · rw [if_neg (by simpa using hpeek)] at hb
    rw [if_neg (by simpa using hpeek)]
    exact miss s t hI b s' hb

theorem Matches.bindConsume (hk : k ≠ .eof) {h : Bool → ParserM β} {h' : Bool → ParserM β'}
    (hit : ∀ i, f.past ≤ i → Matches w (f.beyond (i + 1)) W (h true) (h' true))
    (miss : Matches w f W (h false) (h' false)) :
    Matches w f W (consume k >>= h) (consume k >>= h') :=
  Relates.bindConsume hk (fun i hi => Relates.mono (hit i hi) (fun _ _ hI => hI)
    fun _ _ _ _ h => ⟨h.1, h.2.back (Nat.le_succ_of_le hi)⟩) miss

theorem Matches.consume (hk : k ≠ .eof) : Matches w f Eq (Parser.consume k) (Parser.consume k) := by
  have h : Matches w f Eq (Parser.consume k >>= fun c => Pure.pure c)
      (Parser.consume k >>= fun c => Pure.pure c) :=
    Matches.bindConsume hk (fun _ _ => Matches.pure rfl) (Matches.pure rfl)
  simpa using h

/-! ### Names -/

theorem Matches.textOf {sliced : Bool} {a b : Span} (h : SpanAlike w sliced a b) :
    Matches w f (TextAlike w sliced) (Parser.textOf a) (Parser.textOf b) := by
  intro s t hI x s' hx
  cases hx
  refine ⟨_, t, rfl, ?_, hI⟩
  show TextAlike w sliced (Eter.textOf s.stream.source a) (Eter.textOf t.stream.source b)
  rw [hI.leftSource, hI.rightSource]
  exact h.text

/-- One text is read of a token on either side. -/
theorem MatchesAt.textOf {a b : Span} (h : SpanAlike w false a b) {g : Bytes → ParserM β}
    {g' : Bytes → ParserM β'}
    (hg : MatchesAt w f i k W (g (Eter.textOf w.left.source a)) (g' (Eter.textOf w.left.source a))) :
    MatchesAt w f i k W (Parser.textOf a >>= g) (Parser.textOf b >>= g') := by
  intro s t ⟨hI, hi, hk⟩ x s' hx
  have htext : Eter.textOf w.left.source a = Eter.textOf w.right.source b := h.text.eq
  change g (Eter.textOf s.stream.source a) s = _ at hx
  show ∃ y t', g' (Eter.textOf t.stream.source b) t = _ ∧ _
  rw [hI.leftSource] at hx
  rw [hI.rightSource, ← htext]
  exact hg s t ⟨hI, hi, hk⟩ x s' hx

theorem Names.intern {sliced : Bool} {x y : Bytes} (h : TextAlike w sliced x y) :
    Names w f sliced (Parser.intern x) (Parser.intern y) := by
  intro s t hI a s' ha
  cases ha
  exact ⟨_, _, rfl, hI.intern h⟩

theorem Names.internSame (x : Bytes) : Names w f false (Parser.intern x) (Parser.intern x) :=
  Names.intern (Or.inl rfl)

theorem Names.internText {sliced : Bool} {a b : Span} (h : SpanAlike w sliced a b) :
    Names w f sliced (Parser.internText a) (Parser.internText b) := by
  unfold Parser.internText
  exact (Matches.textOf h).before fun _ _ htext => Names.intern htext

/-- The texts behind names held for the same text are the same. -/
theorem Matches.getText {n n' : InternedStr} (h : ⟨n, n', false⟩ ∈ f.names) :
    Matches w f Eq (Parser.getText n) (Parser.getText n') := by
  intro s t hI x s' hx
  obtain ⟨y, y', hy, hy', htext⟩ := hI.names _ h
  unfold Parser.getText at hx ⊢
  rw [hy] at hx
  cases hx
  rw [hy', htext.eq]
  exact ⟨_, t, rfl, rfl, hI⟩

/-! ### Nodes -/

theorem poolOf_append_get? {base rs : List NodeRecord} {k : ℕ} :
    (poolOf (base ++ rs)).get? (some (base.length + k)) =
      rs[k]?.map (nodeAt (base ++ rs) (base.length + k)) := by
  rw [poolOf_get?, List.getElem?_append_right (Nat.le_add_right _ _), Nat.add_sub_cancel_left]

theorem poolOf_append_spanOf? {base rs : List NodeRecord} {k : ℕ} :
    (poolOf (base ++ rs)).spanOf? (some (base.length + k)) = rs[k]?.map (·.span) := by
  show (poolOf (base ++ rs)).spans[_]? = _
  rw [poolOf_spans, List.getElem?_map, List.getElem?_append_right (Nat.le_add_right _ _),
    Nat.add_sub_cancel_left]

theorem Alike.alloc (h : Alike w f s t) {r r' : NodeRecord}
    (hr : RecordAlike w s.interner t.interner r r') :
    NodeAlike w (s.pool.alloc r.kind r.span r.kids r.payload r.flags).1
        (t.pool.alloc r'.kind r'.span r'.kids r'.payload r'.flags).1 ∧
      Alike w f { s with pool := s.pool.allocRecord r } { t with pool := t.pool.allocRecord r' } := by
  obtain ⟨rs, rs', hp, hp', hrs⟩ := h.pools
  refine ⟨Or.inr ⟨rs.length, ?_, ?_⟩, { h with pools := ⟨rs ++ [r], rs' ++ [r'], ?_, ?_, ?_⟩ }⟩
  · simp [NodePool.alloc, hp]
  · simp [NodePool.alloc, hp', hrs.length_eq]
  · rw [hp, ← List.append_assoc, poolOf_concat]
  · rw [hp', ← List.append_assoc, poolOf_concat]
  · exact List.rel_append hrs (.cons hr .nil)

/-- What the payloads of two nodes have in common by the names that are held. -/
def PayloadHeld (f : Frame) (kind : NodeKind) (p p' : ℕ) : Prop :=
  match encodingOf kind with
  | .packed => ∃ n n' r sliced, p = NodePool.makePayload n r ∧ p' = NodePool.makePayload n' r ∧
      ⟨n, n', sliced⟩ ∈ f.names ∧ (sliced = true → mayHavePath kind = true)
  | .name => (p = NullStr ∧ p' = NullStr) ∨
      ∃ sliced, ⟨p, p', sliced⟩ ∈ f.names ∧ (sliced = true → mayHavePath kind = true)
  | .packedNone => ∃ n n' sliced, p = NodePool.makePayload n .None ∧
      p' = NodePool.makePayload n' .None ∧ ⟨n, n', sliced⟩ ∈ f.names ∧
      (sliced = true → mayHavePath kind = true)
  | .operator => p' = p ∧ ∃ op : Token.Kind, p = NodePool.makeOpPayload op.value
  | .plain => p' = p

theorem Alike.payload (h : Alike w f s t) {kind : NodeKind} {p p' : ℕ}
    (hp : PayloadHeld f kind p p') : PayloadAlike w s.interner t.interner kind p p' := by
  unfold PayloadHeld at hp
  unfold PayloadAlike
  cases henc : encodingOf kind with
  | packed =>
    rw [henc] at hp
    obtain ⟨n, n', r, sliced, hn, hn', hmem, hsl⟩ := hp
    exact ⟨n, n', r, hn, hn', (h.names _ hmem).widen hsl⟩
  | name =>
    rw [henc] at hp
    rcases hp with hnull | ⟨sliced, hmem, hsl⟩
    · exact Or.inl hnull
    · exact Or.inr ((h.names _ hmem).widen hsl)
  | packedNone =>
    rw [henc] at hp
    obtain ⟨n, n', sliced, hn, hn', hmem, hsl⟩ := hp
    exact ⟨n, n', hn, hn', (h.names _ hmem).widen hsl⟩
  | operator =>
    rw [henc] at hp
    exact hp
  | plain =>
    rw [henc] at hp
    exact hp

theorem Matches.alloc {kind : NodeKind} {span span' : Span} {kids kids' : List NodeIndex}
    {p p' flags : ℕ} (hkids : List.Forall₂ (NodeAlike w) kids kids')
    (hp : PayloadHeld f kind p p') :
    Matches w f (NodeAlike w) (Parser.alloc kind span kids p flags)
      (Parser.alloc kind span' kids' p' flags) := by
  intro s t hI a s' ha
  cases ha
  have hr : RecordAlike w s.interner t.interner ⟨kind, span, kids, p, flags⟩
      ⟨kind, span', kids', p', flags⟩ := ⟨rfl, rfl, hkids, hI.payload hp⟩
  exact ⟨_, _, rfl, hI.alloc hr⟩

theorem Matches.allocPlain {kind : NodeKind} {span span' : Span} {kids kids' : List NodeIndex}
    {p flags : ℕ} (henc : encodingOf kind = .plain)
    (hkids : List.Forall₂ (NodeAlike w) kids kids') :
    Matches w f (NodeAlike w) (Parser.alloc kind span kids p flags)
      (Parser.alloc kind span' kids' p flags) := by
  refine Matches.alloc hkids ?_
  unfold PayloadHeld
  rw [henc]

theorem Matches.allocName {kind : NodeKind} {span span' : Span} {kids kids' : List NodeIndex}
    {n n' flags : ℕ} {sliced : Bool} (hmem : ⟨n, n', sliced⟩ ∈ f.names)
    (henc : encodingOf kind = .name ∧ (sliced = true → mayHavePath kind = true))
    (hkids : List.Forall₂ (NodeAlike w) kids kids') :
    Matches w f (NodeAlike w) (Parser.alloc kind span kids n flags)
      (Parser.alloc kind span' kids' n' flags) := by
  refine Matches.alloc hkids ?_
  unfold PayloadHeld
  rw [henc.1]
  exact Or.inr ⟨sliced, hmem, henc.2⟩

theorem Matches.allocPacked {kind : NodeKind} {span span' : Span} {kids kids' : List NodeIndex}
    {n n' flags : ℕ} {r : Regime} {sliced : Bool} (hmem : ⟨n, n', sliced⟩ ∈ f.names)
    (henc : encodingOf kind = .packed ∧ (sliced = true → mayHavePath kind = true))
    (hkids : List.Forall₂ (NodeAlike w) kids kids') :
    Matches w f (NodeAlike w)
      (Parser.alloc kind span kids (NodePool.makePayload n r) flags)
      (Parser.alloc kind span' kids' (NodePool.makePayload n' r) flags) := by
  refine Matches.alloc hkids ?_
  unfold PayloadHeld
  rw [henc.1]
  exact ⟨n, n', r, sliced, rfl, rfl, hmem, henc.2⟩

theorem Matches.allocPackedNone {kind : NodeKind} {span span' : Span}
    {kids kids' : List NodeIndex} {n n' flags : ℕ} {sliced : Bool}
    (hmem : ⟨n, n', sliced⟩ ∈ f.names)
    (henc : encodingOf kind = .packedNone ∧ (sliced = true → mayHavePath kind = true))
    (hkids : List.Forall₂ (NodeAlike w) kids kids') :
    Matches w f (NodeAlike w)
      (Parser.alloc kind span kids (NodePool.makePayload n .None) flags)
      (Parser.alloc kind span' kids' (NodePool.makePayload n' .None) flags) := by
  refine Matches.alloc hkids ?_
  unfold PayloadHeld
  rw [henc.1]
  exact ⟨n, n', sliced, rfl, rfl, hmem, henc.2⟩

theorem Matches.allocOperator {kind : NodeKind} {span span' : Span} {kids kids' : List NodeIndex}
    {op op' : Token.Kind} {flags : ℕ} (henc : encodingOf kind = .operator) (hop : op' = op)
    (hkids : List.Forall₂ (NodeAlike w) kids kids') :
    Matches w f (NodeAlike w)
      (Parser.alloc kind span kids (NodePool.makeOpPayload op.value) flags)
      (Parser.alloc kind span' kids' (NodePool.makeOpPayload op'.value) flags) := by
  subst hop
  refine Matches.alloc hkids ?_
  unfold PayloadHeld
  rw [henc]
  exact ⟨rfl, op', rfl⟩

theorem Matches.makeErrorNode {span span' : Span} :
    Matches w f (NodeAlike w) (Parser.makeErrorNode span) (Parser.makeErrorNode span') :=
  Matches.allocPlain rfl .nil

theorem forall₂_getElem? {R : α → β → Prop} {as : List α} {bs : List β} (h : List.Forall₂ R as bs)
    {j : ℕ} {a : α} (ha : as[j]? = some a) : ∃ b, bs[j]? = some b ∧ R a b := by
  obtain ⟨hlt, rfl⟩ := List.getElem?_eq_some_iff.mp ha
  have hlt' : j < bs.length := h.length_eq ▸ hlt
  exact ⟨bs[j], List.getElem?_eq_getElem hlt', h.get hlt hlt'⟩

theorem Matches.kindOf {x y : NodeIndex} (h : NodeAlike w x y) :
    Matches w f Eq (Parser.kindOf x) (Parser.kindOf y) := by
  intro s t hI a s' ha
  obtain ⟨rs, rs', hp, hp', hrs⟩ := hI.pools
  rcases h with ⟨rfl, rfl⟩ | ⟨k, rfl, rfl⟩
  · cases ha
  · unfold Parser.kindOf at ha ⊢
    rw [hp, poolOf_append_get?] at ha
    rw [hp', poolOf_append_get?]
    cases hk : rs[k]? with
    | none =>
      rw [hk] at ha
      cases ha
    | some r =>
      obtain ⟨r', hk', hr⟩ := forall₂_getElem? hrs hk
      rw [hk] at ha
      cases ha
      rw [hk']
      exact ⟨_, t, rfl, hr.kind.symm, hI⟩

theorem Matches.spanOf {x y : NodeIndex} (h : NodeAlike w x y) :
    Matches w f (fun _ _ => True) (Parser.spanOf x) (Parser.spanOf y) := by
  intro s t hI a s' ha
  obtain ⟨rs, rs', hp, hp', hrs⟩ := hI.pools
  rcases h with ⟨rfl, rfl⟩ | ⟨k, rfl, rfl⟩
  · cases ha
  · unfold Parser.spanOf at ha ⊢
    rw [hp, poolOf_append_spanOf?] at ha
    rw [hp', poolOf_append_spanOf?]
    cases hk : rs[k]? with
    | none =>
      rw [hk] at ha
      cases ha
    | some r =>
      obtain ⟨r', hk', -⟩ := forall₂_getElem? hrs hk
      rw [hk] at ha
      cases ha
      rw [hk']
      exact ⟨_, t, rfl, trivial, hI⟩

/-! ### Reporting -/

theorem Alike.report (h : Alike w f s t) {d d' : PhaseDiagnostic} (hid : d'.localID = d.localID)
    (hfill : fills (d.args.map Prod.fst) d.localID = true) :
    Alike w f { s with errors := s.errors ++ [d] } { t with errors := t.errors ++ [d'] } := by
  obtain ⟨es, es', hes, hes', halike, hlack⟩ := h.errors
  refine { h with errors := ⟨es ++ [d], es' ++ [d'], ?_, ?_, ?_, ?_⟩ }
  · rw [hes, List.append_assoc]
  · rw [hes', List.append_assoc]
  · exact List.rel_append halike (.cons hid .nil)
  · rw [hlack]
    simp [lacking, hfill]

theorem Matches.report {d d' : PhaseDiagnostic} (hid : d'.localID = d.localID)
    (hfill : fills (d.args.map Prod.fst) d.localID = true) :
    Matches w f (fun _ _ => True) (Parser.report d) (Parser.report d') := by
  intro s t hI a s' ha
  cases ha
  exact ⟨(), _, rfl, trivial, hI.report hid hfill⟩

theorem Matches.addError {loc loc' : Span} {id : DiagID} (hfill : fills [] id = true) :
    Matches w f (fun _ _ => True) (Parser.addError loc id) (Parser.addError loc' id) :=
  Matches.report rfl hfill

/-! ### Recovery -/

theorem Matches.countStray {k k' : Token.Kind} :
    Matches w f (fun _ _ => True) (Parser.countStray k) (Parser.countStray k') := by
  intro s t hI a s' ha
  cases ha
  exact ⟨(), _, rfl, trivial, { hI with }⟩

theorem MatchesAt.countStray {k' k'' : Token.Kind} {g : Unit → ParserM β} {g' : Unit → ParserM β'}
    (hg : MatchesAt w f i k W (g ()) (g' ())) :
    MatchesAt w f i k W (Parser.countStray k' >>= g) (Parser.countStray k'' >>= g') := by
  intro s t ⟨hI, hi, hk⟩ b s' hb
  have hI' : Alike w f
      { s with strays := if isBrace k' then s.strays + 1 else s.strays }
      { t with strays := if isBrace k'' then t.strays + 1 else t.strays } := { hI with }
  exact hg _ _ ⟨hI', hi, hk⟩ b s' hb

theorem Matches.skip : Matches w f (fun _ _ => True) Parser.skip Parser.skip := by
  unfold Parser.skip
  refine Matches.peek.bind fun _ _ _ => ?_
  refine Matches.countStray.bind fun _ _ _ => ?_
  exact Matches.advance.bind fun _ _ _ => Matches.pure trivial

theorem Matches.skipTokens (stop : Token.Kind → Bool) (n : ℕ) :
    Matches w f (fun _ _ => True) (Parser.skipTokens stop n) (Parser.skipTokens stop n) := by
  induction n with
  | zero => exact fun _ _ _ _ _ ha => nomatch ha
  | succ n ih =>
    unfold Parser.skipTokens
    refine Matches.peek.bind ?_
    rintro k _ rfl
    refine Matches.atEof.bind ?_
    rintro b _ rfl
    split
    · exact Matches.pure trivial
    · exact Matches.skip.bind fun _ _ _ => ih

/-- As many tokens are unread on either side. -/
theorem Alike.unread (h : Alike w f s t) :
    t.stream.tokens.length - t.stream.cursor = s.stream.tokens.length - s.stream.cursor := by
  have hc := h.cursor
  have hlen := w.length
  rw [h.leftTokens, h.rightTokens]
  omega

theorem Matches.skipUntil (stop : Token.Kind → Bool) :
    Matches w f (fun _ _ => True) (Parser.skipUntil stop) (Parser.skipUntil stop) := by
  intro s t hI a s' ha
  unfold Parser.skipUntil at ha ⊢
  rw [hI.unread]
  exact Matches.skipTokens stop _ s t hI a s' ha

/-- Behind a consumed token. -/
theorem Matches.syncTokens (hpast : 1 ≤ f.past) (n : ℕ) :
    Matches w f (fun _ _ => True) (Parser.syncTokens n) (Parser.syncTokens n) := by
  induction n with
  | zero => exact fun _ _ _ _ _ ha => nomatch ha
  | succ n ih =>
    unfold Parser.syncTokens
    refine Matches.atEof.bind ?_
    rintro b _ rfl
    split
    · exact Matches.pure trivial
    · refine (Matches.previousToken hpast).bind fun t t' ht => ?_
      rw [ht.1]
      split
      · exact Matches.pure trivial
      · refine Matches.peek.bind ?_
        rintro k _ rfl
        split
        · exact Matches.pure trivial
        · exact Matches.skip.bind fun _ _ _ => ih

theorem Matches.syncRest (hpast : 1 ≤ f.past) :
    Matches w f (fun _ _ => True) Parser.syncRest Parser.syncRest := by
  intro s t hI a s' ha
  unfold Parser.syncRest at ha ⊢
  rw [hI.unread]
  exact Matches.syncTokens hpast _ s t hI a s' ha

/-- At the end of the file the loop stops at once. -/
theorem MatchesAt.syncRest :
    MatchesAt w f i .eof (fun _ _ => True) Parser.syncRest Parser.syncRest := by
  rintro s t ⟨hI, -, hk⟩ a s' ha
  have hl : s.stream.atEof = true := by simp [TokenStream.atEof, TokenStream.check, hk]
  have hr : t.stream.atEof = true := by simp [TokenStream.atEof, TokenStream.check, hI.peek, hk]
  have hstop : ∀ u : PState, u.stream.atEof = true → Parser.syncRest u = .ok ((), u) := by
    intro u hu
    show (if u.stream.atEof = true then Pure.pure () else _ : ParserM Unit) u = _
    rw [if_pos hu]
    rfl
  rw [hstop s hl] at ha
  cases ha
  exact ⟨(), t, hstop t hr, trivial, hI⟩

theorem Matches.synchronize :
    Matches w f (fun _ _ => True) Parser.synchronize Parser.synchronize := by
  refine Matches.fromToken fun i k => ?_
  unfold Parser.synchronize Parser.atEof
  refine MatchesAt.check _ ?_
  by_cases hk : k = .eof
  · subst hk
    rw [if_pos (by simp)]
    exact MatchesAt.syncRest
  · rw [if_neg (by simpa using hk)]
    unfold Parser.skip
    simp only [bind_assoc]
    refine MatchesAt.peek (MatchesAt.countStray ?_)
    refine MatchesAt.advance hk ?_
    exact Matches.syncRest (Nat.le_add_left 1 i)

/-! ### Expecting tokens -/

/-- The arguments that `expect` gives. -/
def expectArgs (context : String) : List String :=
  ["tok", "keyword", "found"] ++ if context = "" then [] else ["context"]

theorem Matches.expect {k : Token.Kind} (hk : k ≠ .eof) {d : DiagID} {context : String}
    (hfill : fills (expectArgs context) d = true) :
    Matches w f (TokenAlike w) (Parser.expect k d context) (Parser.expect k d context) := by
  unfold Parser.expect
  refine Matches.bindConsume hk (fun i _ => ?_) ?_
  · exact Matches.previousToken (Nat.le_add_left 1 i)
  · refine Matches.peekToken.bind fun t t' ht => ?_
    refine Matches.countStray.bind fun _ _ _ => ?_
    refine (Matches.report ?_ ?_).bind fun _ _ _ => Matches.pure ⟨rfl, ht.2⟩
    · split <;> rfl
    · unfold expectArgs at hfill
      split
      · rw [if_pos ‹_›] at hfill
        exact hfill
      · rw [if_neg ‹_›] at hfill
        exact hfill

theorem Names.expectAndIntern {k : Token.Kind} (hk : k ≠ .eof) {d : DiagID}
    (hfill : fills (expectArgs "") d = true) :
    Names w f false (Parser.expectAndIntern k d) (Parser.expectAndIntern k d) := by
  unfold Parser.expectAndIntern
  exact (Matches.expect hk hfill).before fun _ _ ht => Names.internText ht.2

/-- The name behind a consumed token, or that of the token found in its place. -/
theorem Names.expectName {k : Token.Kind} (hk : k ≠ .eof) {construct : String} :
    Names w f false (Parser.expectName k construct) (Parser.expectName k construct) := by
  unfold Parser.expectName
  refine Relates.bindConsume hk (fun i hi => ?_) ?_
  · have hname : Names w (f.beyond (i + 1)) false
        (do Parser.internText (← Parser.previous).tokenSpan)
        (do Parser.internText (← Parser.previous).tokenSpan) :=
      (Matches.previousToken (Nat.le_add_left 1 i)).before fun _ _ ht => Names.internText ht.2
    exact Relates.mono hname (fun _ _ hI => hI) fun _ _ _ _ h =>
      h.weaken rfl (Nat.le_succ_of_le hi) fun _ hp => hp
  · refine Matches.peekToken.before fun t t' ht => ?_
    refine (Matches.report (by rfl) ?_).before fun _ _ _ => Names.internText ht.2
    show fills ["construct", "found"] .ExpectedName = true
    decide

theorem expect_of_peek {d : DiagID} {context : String} (hk : s.stream.peek 0 = k) :
    Parser.expect k d context s =
      .ok (s.stream.advance.2.previous, { s with stream := s.stream.advance.2 }) := by
  have hcons : Parser.consume k s = .ok (true, { s with stream := s.stream.advance.2 }) := by
    unfold Parser.consume TokenStream.consume TokenStream.check
    rw [if_pos (by simpa using hk)]
  unfold Parser.expect
  show (Parser.consume k s >>= fun p => _) = _
  rw [hcons]
  rfl

/-- A token that is there is consumed. -/
theorem MatchesAt.expect (hk : k ≠ .eof) {d : DiagID} {context : String} {r : Token → ParserM β}
    {r' : Token → ParserM β'}
    (hr : Matches w (f.beyond (i + 1)) W (r (w.left.tokenAt i))
      (r' (w.right.tokenAt (i + w.shift)))) :
    MatchesAt w f i k W (Parser.expect k d context >>= r) (Parser.expect k d context >>= r') := by
  rintro s t ⟨hI, hi, hkind⟩ b s' hb
  have hlt := hI.cursor_lt (hkind ▸ hk)
  have hadv := hI.advance
  have hp := hI.past
  rw [if_pos hlt, hi] at hadv
  obtain ⟨j, hj, hl, hr'⟩ := hadv.previous (Nat.le_add_left 1 i)
  have hji : j = i := by
    have hc : (s.stream.advance.2).cursor = i + 1 := by
      rw [Side.advance_eq hI.leftTokens, if_pos hlt, hi]
    exact Nat.succ.inj (hj.symm.trans hc)
  subst hji
  change (Parser.expect k d context s >>= fun p => r p.1 p.2) = _ at hb
  show ∃ b' t', (Parser.expect k d context t >>= fun p => r' p.1 p.2) = _ ∧ _
  rw [expect_of_peek hkind] at hb
  rw [expect_of_peek ((hI.peek 0).trans hkind)]
  change r s.stream.advance.2.previous _ = _ at hb
  show ∃ b' t', r' t.stream.advance.2.previous _ = _ ∧ _
  rw [hl] at hb
  rw [hr']
  obtain ⟨b', t', hb', hW, hI'⟩ := hr _ _ hadv b s' hb
  exact ⟨b', t', hb', hW, hI'.back (by omega)⟩

theorem Matches.parseRegime : Matches w f Eq Parser.parseRegime Parser.parseRegime := by
  unfold Parser.parseRegime
  refine Matches.peek.bind ?_
  rintro k _ rfl
  split
  · exact Matches.advance.bind fun _ _ _ => Matches.pure rfl
  · exact Matches.advance.bind fun _ _ _ => Matches.pure rfl
  · exact Matches.advance.bind fun _ _ _ => Matches.pure rfl
  · exact Matches.pure rfl

/-- `m` runs with struct literals allowed or not, and what was set before is set again. -/
theorem Matches.withStructLit {lit : Bool} (hm : Matches w (f.allow lit) V m m') :
    Matches w f V (Parser.withStructLit lit m) (Parser.withStructLit lit m') := by
  intro s t hI a s' ha
  have hI' : Alike w (f.allow lit) { s with structLitAllowed := lit }
      { t with structLitAllowed := lit } := { hI with leftLit := rfl, rightLit := rfl }
  change (m { s with structLitAllowed := lit } >>= fun p =>
    .ok (p.1, { p.2 with structLitAllowed := s.structLitAllowed })) = _ at ha
  show ∃ b t', (m' { t with structLitAllowed := lit } >>= fun p =>
    .ok (p.1, { p.2 with structLitAllowed := t.structLitAllowed })) = _ ∧ _
  cases hm₁ : m { s with structLitAllowed := lit } with
  | error e =>
    rw [hm₁] at ha
    cases ha
  | ok p =>
    obtain ⟨a₁, s₁⟩ := p
    rw [hm₁] at ha
    cases ha
    obtain ⟨b, t₁, hb, hV, hI₁⟩ := hm _ _ hI' a₁ s₁ hm₁
    refine ⟨b, { t₁ with structLitAllowed := t.structLitAllowed }, ?_, hV, ?_⟩
    · rw [hb]
      rfl
    · exact { hI₁ with leftLit := hI.leftLit, rightLit := hI.rightLit }

end Eter.Parser
