import Eter.SpanInvariant
import Eter.ParserSteps
import Eter.TwinSteps
import Eter.ParseDecls

/-!
# What the token helpers do to the places of nodes
-/

namespace Eter.Parser
open Stateful Diag

variable {g : Ground} {c a b x y : ℕ} {s s' : PState} {α β : Type} {Q : α → PState → Prop}
  {R : β → PState → Prop} {k : Token.Kind} {i : NodeIndex} {is : List NodeIndex} {m : ParserM α}
  {f : α → ParserM β}

/-! ### Judgements -/

/-- Whenever `m` succeeds from `s`, nothing is lost and the result is in `Q`. -/
abbrev Lays (m : ParserM α) (Q : α → PState → Prop) (s : PState) : Prop :=
  Grows PState.Later m Q s

theorem Lays.pure {v : α} (h : Q v s) : Lays (pure v) Q s := Grows.pure (.refl s) h

theorem Lays.bind (hm : Lays m Q s) (hf : ∀ v s', s.Later s' → Q v s' → Lays (f v) R s') :
    Lays (m >>= f) R s :=
  Grows.bind (fun h h' => h.trans h') hm hf

/-- The result of a computation that only reads the state. -/
theorem Lays.read {v : α} (hm : m s = .ok (v, s)) (hf : Lays (f v) R s) : Lays (m >>= f) R s :=
  Lays.bind (Q := fun v' s' => v' = v ∧ s' = s)
    (fun v' s' h => by rw [hm] at h; cases h; exact ⟨.refl s, rfl, rfl⟩)
    (by rintro _ _ - ⟨rfl, rfl⟩; exact hf)

theorem Lays.iterate {turn : α → ParserM (Turn α β)} {I : α → PState → Prop}
    (hturn : ∀ v s, I v s → Lays (turn v) (fun r s' => r.Leads (fun v' => I v' s')
      (fun w => R w s')) s) (n : ℕ) {v : α} (h : I v s) : Lays (iterate turn n v) R s :=
  Grows.iterate PState.Later.refl (fun h h' => h.trans h') hturn n h

/-- A later state at a token that is not before `c`. -/
def Reaches (g : Ground) (c : ℕ) (s : PState) : Prop := ∃ b, c ≤ b ∧ Good g b s

/-- A node built from token `a` on; where `p` holds, at least a token was consumed. -/
def LaidIf (p : Prop) (g : Ground) (a : ℕ) (i : NodeIndex) (s : PState) : Prop :=
  ∃ b, a ≤ b ∧ (p → a < b) ∧ Good g b s ∧ Placed g s a b i

abbrev Laid : Ground → ℕ → NodeIndex → PState → Prop := LaidIf False

/-- A node built from token `a` on, of which at least one was consumed. -/
abbrev LaidMoving : Ground → ℕ → NodeIndex → PState → Prop := LaidIf True

theorem LaidIf.weaken {p q : Prop} (h : LaidIf p g a i s) (hqp : q → p) : LaidIf q g a i s := by
  obtain ⟨b, hab, hp, h⟩ := h
  exact ⟨b, hab, fun hq => hp (hqp hq), h⟩

theorem LaidIf.laid {p : Prop} (h : LaidIf p g a i s) : Laid g a i s := h.weaken False.elim

/-- A child that was built from token `a` on. -/
def Adds (g : Ground) (a : ℕ) (i : NodeIndex) (s : PState) : Prop :=
  ∃ b, a ≤ b ∧ Good g b s ∧ Kids s (g.start a) (g.before b) [i]

theorem LaidIf.adds {p : Prop} (h : LaidIf p g a i s) : Adds g a i s := by
  obtain ⟨b, hab, -, hgood, hplaced⟩ := h
  exact ⟨b, hab, hgood, hplaced.kids⟩

/-! ### Reading -/

theorem Good.peek (h : Good g c s) (o : ℕ) : s.stream.peek o = g.kind (c + o) := by
  rw [Side.peek_eq h.tokens, h.cursor]
  rfl

theorem Good.check (h : Good g c s) (k : Token.Kind) : s.stream.check k = decide (g.kind c = k) := by
  unfold TokenStream.check
  rw [h.peek, Nat.add_zero]

theorem Good.peekToken (h : Good g c s) : s.stream.peekToken 0 = g.side.tokenAt c := by
  rw [Side.peekToken_eq h.tokens, h.cursor, Nat.add_zero]

theorem Good.previous (h : Good g (c + 1) s) : s.stream.previous = g.side.tokenAt c :=
  TokenStream.previous_of_pos h.tokens h.cursor

theorem Good.bindPeek (h : Good g c s) {f : Token.Kind → ParserM β} (hf : Lays (f (g.kind c)) R s) :
    Lays (Parser.peek >>= f) R s :=
  Lays.read rfl (by rw [h.peek, Nat.add_zero]; exact hf)

theorem Good.bindPeekAt (h : Good g c s) (o : ℕ) {f : Token.Kind → ParserM β}
    (hf : Lays (f (g.kind (c + o))) R s) : Lays (Parser.peekAt o >>= f) R s :=
  Lays.read rfl (by rw [h.peek]; exact hf)

theorem Good.bindCheck (h : Good g c s) (k : Token.Kind) {f : Bool → ParserM β}
    (hf : Lays (f (g.kind c = k)) R s) : Lays (Parser.check k >>= f) R s :=
  Lays.read rfl (by rw [h.check]; exact hf)

theorem Good.bindAtEof (h : Good g c s) {f : Bool → ParserM β}
    (hf : Lays (f (g.kind c = .eof)) R s) : Lays (Parser.atEof >>= f) R s :=
  h.bindCheck .eof hf

theorem Good.bindPeekToken (h : Good g c s) {f : Token → ParserM β}
    (hf : Lays (f (g.side.tokenAt c)) R s) : Lays (Parser.peekToken >>= f) R s :=
  Lays.read rfl (by rw [h.peekToken]; exact hf)

theorem Good.bindPrevious (h : Good g (c + 1) s) {f : Token → ParserM β}
    (hf : Lays (f (g.side.tokenAt c)) R s) : Lays (Parser.previous >>= f) R s :=
  Lays.read rfl (by rw [h.previous]; exact hf)

theorem Lays.readOnly (hm : ∀ v s', m s = .ok (v, s') → s' = s) (hf : ∀ v, Lays (f v) R s) :
    Lays (m >>= f) R s :=
  Lays.bind (Q := fun _ s' => s' = s) (fun v s' h => by rw [hm v s' h]; exact ⟨.refl s, rfl⟩)
    (by rintro v _ - rfl; exact hf v)

theorem Lays.kindOf {f : NodeKind → ParserM β} (hf : ∀ kind, Lays (f kind) R s) :
    Lays (Parser.kindOf i >>= f) R s := by
  refine Lays.readOnly (fun v s' h => ?_) hf
  unfold Parser.kindOf at h
  split at h <;> cases h
  rfl

theorem Lays.getText {id : InternedStr} {f : Bytes → ParserM β} (hf : ∀ text, Lays (f text) R s) :
    Lays (Parser.getText id >>= f) R s := by
  refine Lays.readOnly (fun v s' h => ?_) hf
  unfold Parser.getText at h
  split at h <;> cases h
  rfl

/-- The span of a node that is there. -/
theorem NodePool.Lies.spanOf {z : Span} (h : s.pool.Lies i z) {f : Span → ParserM β}
    (hf : Lays (f z) R s) : Lays (Parser.spanOf i >>= f) R s := by
  refine Lays.read (v := z) ?_ hf
  unfold Parser.spanOf
  rw [h.1]

/-! ### Moving on -/

theorem Good.moved (h : Good g c s) : Good g (c + 1) s.moved :=
  { h with cursor := congrArg (· + 1) h.cursor }

theorem PState.later_moved (s : PState) : s.Later s.moved :=
  ⟨Nat.le_succ _, .refl _, List.prefix_rfl, List.prefix_rfl, fun _ _ h => h⟩

theorem Ground.lt_of_kind (h : g.kind c ≠ .eof) : c < g.side.tokens.length := by
  by_contra hge
  refine h ?_
  unfold Ground.kind Side.tokenAt TokenStream.peekToken TokenStream.fresh
  rw [List.getElem?_eq_none (by simpa using hge)]
  rfl

/-- The stream moves on unless it is at its end, behind which nothing follows. -/
theorem Good.advance (h : Good g c s) :
    Lays advance (fun t s' => t = g.side.tokenAt c ∧ ∃ b, c ≤ b ∧ b ≤ c + 1 ∧
      (g.kind c ≠ .eof → b = c + 1) ∧ g.before (c + 1) = g.before b ∧ Good g b s') s := by
  intro t s' ht
  cases ht
  rw [Side.advance_eq h.tokens, h.cursor]
  by_cases hlt : c < g.side.tokens.length
  · rw [if_pos hlt]
    have hmoved : ({ s with stream := { s.stream with cursor := c + 1 } } : PState) = s.moved := by
      unfold PState.moved
      rw [h.cursor]
    rw [hmoved]
    exact ⟨s.later_moved, rfl, c + 1, Nat.le_succ c, le_rfl, fun _ => rfl, rfl, h.moved⟩
  · rw [if_neg hlt]
    refine ⟨.refl s, rfl, c, le_rfl, Nat.le_succ c, fun hk => ?_, ?_, h⟩
    · exact (hlt (Ground.lt_of_kind hk)).elim
    · exact g.before_of_length_le (by omega)

theorem Good.bindAdvance (h : Good g c s) (hk : g.kind c ≠ .eof) {f : Token → ParserM β}
    (hf : ∀ s', s.Later s' → Good g (c + 1) s' → Lays (f (g.side.tokenAt c)) R s') :
    Lays (Parser.advance >>= f) R s := by
  refine h.advance.bind ?_
  rintro _ s' hle ⟨rfl, b, -, -, hb, -, h'⟩
  obtain rfl := hb hk
  exact hf s' hle h'

theorem Good.consume (h : Good g c s) (hk : k ≠ .eof) :
    Lays (consume k) (fun v s' => v = true ∧ g.kind c = k ∧ Good g (c + 1) s' ∨
      v = false ∧ g.kind c ≠ k ∧ s' = s) s := by
  intro v s' hv
  cases hv
  unfold TokenStream.consume
  rw [h.check]
  by_cases heq : g.kind c = k
  · rw [if_pos (by simpa using heq)]
    obtain ⟨hle, -, b, -, -, hb, -, hgood⟩ := h.advance _ _ rfl
    obtain rfl := hb (heq ▸ hk)
    exact ⟨hle, Or.inl ⟨rfl, heq, hgood⟩⟩
  · rw [if_neg (by simpa using heq)]
    exact ⟨.refl s, Or.inr ⟨rfl, heq, rfl⟩⟩

/-! ### Reporting -/

theorem Ground.proper_span (g : Ground) (c : ℕ) : Proper g.size (g.side.tokenAt c).tokenSpan :=
  ⟨g.ordered c, g.inside c⟩

theorem Good.reported (h : Good g c s) {d : PhaseDiagnostic} (hd : Proper g.size d.loc)
    (hl : ∀ l ∈ d.labels, Proper g.size l.diagSpan) :
    Good g c { s with errors := s.errors ++ [d] } := by
  obtain ⟨rs, hp, hfine, hclean⟩ := h.records
  refine ⟨h.tokens, h.cursor, ⟨rs, hp, fun hs => hfine fun hmem => ?_, fun hs => ?_⟩, ?_,
    fun hmem => ⟨by simp, (h.exposed hmem).2⟩⟩
  · have hnil : s.errors ++ [d] = [] := hs hmem
    simp at hnil
  · have hnil : s.errors ++ [d] = [] := hs
    simp at hnil
  · intro d' hd'
    rcases List.mem_append.mp hd' with hd' | hd'
    · exact h.errors d' hd'
    · rw [List.mem_singleton.mp hd']
      exact ⟨hd, hl⟩

theorem Good.report (h : Good g c s) {d : PhaseDiagnostic} (hd : Proper g.size d.loc)
    (hl : ∀ l ∈ d.labels, Proper g.size l.diagSpan) :
    Lays (report d) (fun _ s' => Good g c s' ∧ ¬ s'.Clean) s := by
  intro v s' hv
  cases hv
  refine ⟨⟨le_rfl, .refl _, List.prefix_append _ _, List.prefix_rfl, fun _ _ h => h⟩,
    h.reported hd hl, ?_⟩
  show s.errors ++ [d] ≠ []
  simp

theorem Good.addError (h : Good g c s) {loc : Span} (hloc : Proper g.size loc) (id : DiagID) :
    Lays (addError loc id) (fun _ s' => Good g c s' ∧ ¬ s'.Clean) s :=
  h.report hloc fun _ hl => nomatch hl

/-! ### Skipping -/

theorem Good.countStray (h : Good g c s) (k : Token.Kind) :
    Lays (countStray k) (fun _ s' => Good g c s') s := by
  intro v s' hv
  cases hv
  exact ⟨⟨le_rfl, .refl _, List.prefix_rfl, List.prefix_rfl, fun _ _ h => h⟩, { h with }⟩

theorem Good.skip (h : Good g c s) :
    Lays skip (fun _ s' => ∃ b, c ≤ b ∧ (g.kind c ≠ .eof → b = c + 1) ∧ Good g b s') s := by
  unfold Parser.skip
  refine h.bindPeek ((h.countStray _).bind fun _ s₁ hle₁ h₁ => ?_)
  refine h₁.advance.bind fun _ s₂ hle₂ h₂ => ?_
  obtain ⟨-, b, hcb, -, hb, -, h₂⟩ := h₂
  exact Lays.pure ⟨b, hcb, hb, h₂⟩

theorem Good.skipTokens (h : Good g c s) (stop : Token.Kind → Bool) (n : ℕ) :
    Lays (skipTokens stop n) (fun _ s' => Reaches g c s') s := by
  induction n generalizing c s with
  | zero =>
    intro v s' hv
    cases hv
  | succ n ih =>
    unfold Parser.skipTokens
    refine h.bindPeek (h.bindAtEof ?_)
    split_ifs
    · exact Lays.pure ⟨c, le_rfl, h⟩
    · refine h.skip.bind ?_
      rintro _ s₁ hle₁ ⟨b, hcb, -, h₁⟩
      refine (ih h₁).mono ?_
      rintro _ _ - ⟨b', hb', h'⟩
      exact ⟨b', hcb.trans hb', h'⟩

theorem Good.skipUntil (h : Good g c s) (stop : Token.Kind → Bool) :
    Lays (skipUntil stop) (fun _ s' => Reaches g c s') s :=
  h.skipTokens stop _

theorem Good.syncTokens (h : Good g c s) (n : ℕ) :
    Lays (syncTokens n) (fun _ s' => Reaches g c s') s := by
  induction n generalizing c s with
  | zero =>
    intro v s' hv
    cases hv
  | succ n ih =>
    unfold Parser.syncTokens
    refine h.bindAtEof ?_
    split_ifs
    · exact Lays.pure ⟨c, le_rfl, h⟩
    · refine Lays.read rfl ?_
      split_ifs
      · exact Lays.pure ⟨c, le_rfl, h⟩
      · refine h.bindPeek ?_
        split_ifs
        · exact Lays.pure ⟨c, le_rfl, h⟩
        · refine h.skip.bind ?_
          rintro _ s₁ hle₁ ⟨b, hcb, -, h₁⟩
          refine (ih h₁).mono ?_
          rintro _ _ - ⟨b', hb', h'⟩
          exact ⟨b', hcb.trans hb', h'⟩

theorem Good.synchronize (h : Good g c s) :
    Lays synchronize (fun _ s' => Reaches g c s') s := by
  unfold Parser.synchronize
  refine h.bindAtEof ?_
  split_ifs
  · exact h.syncTokens _
  · refine h.skip.bind ?_
    rintro _ s₁ hle₁ ⟨b, hcb, -, h₁⟩
    exact (h₁.syncTokens _).mono fun _ _ _ ⟨b', hb', h'⟩ => ⟨b', hcb.trans hb', h'⟩

/-! ### Expecting tokens -/

/-- The token is there. -/
theorem Good.expectHit (h : Good g c s) (hk : k ≠ .eof) (hkind : g.kind c = k) (d : DiagID)
    (context : String) :
    Lays (expect k d context) (fun t s' => t.tokenSpan = g.span c ∧ Good g (c + 1) s') s := by
  unfold Parser.expect
  refine (h.consume hk).bind ?_
  rintro _ s₁ hle₁ (⟨rfl, -, h₁⟩ | ⟨rfl, hne, rfl⟩)
  · exact h₁.bindPrevious (Lays.pure ⟨rfl, h₁⟩)
  · exact (hne hkind).elim

/-- The token is not there. -/
theorem Good.expectMiss (h : Good g c s) (hk : k ≠ .eof) (hkind : g.kind c ≠ k) (d : DiagID)
    (context : String) :
    Lays (expect k d context)
      (fun t s' => t.tokenSpan = g.span c ∧ Good g c s' ∧ ¬ s'.Clean) s := by
  unfold Parser.expect
  refine (h.consume hk).bind ?_
  rintro _ s₁ hle₁ (⟨rfl, heq, -⟩ | ⟨rfl, -, rfl⟩)
  · exact (hkind heq).elim
  · refine h.bindPeekToken ((h.countStray k).bind fun _ s₂ hle₂ h₂ => ?_)
    refine Lays.bind (h₂.report ?_ ?_) ?_
    · split_ifs <;> exact g.proper_span c
    · intro l hl
      split_ifs at hl <;> exact nomatch hl
    · rintro _ s₃ - ⟨h₃, hdirty⟩
      exact Lays.pure ⟨rfl, h₃, hdirty⟩

/-- Behind an expected token; as long as no error is reported, it was there. -/
def Behind (g : Ground) (c : ℕ) (k : Token.Kind) (s : PState) : Prop :=
  ∃ b, c ≤ b ∧ b ≤ c + 1 ∧ (g.kind c = k → b = c + 1) ∧ (s.Clean → b = c + 1) ∧ Good g b s

theorem Good.expect (h : Good g c s) (hk : k ≠ .eof) (d : DiagID) (context : String) :
    Lays (Parser.expect k d context) (fun t s' => t.tokenSpan = g.span c ∧ Behind g c k s') s := by
  by_cases hkind : g.kind c = k
  · refine (h.expectHit hk hkind d context).mono fun t s' _ ⟨ht, h'⟩ => ?_
    exact ⟨ht, c + 1, Nat.le_succ c, le_rfl, fun _ => rfl, fun _ => rfl, h'⟩
  · refine (h.expectMiss hk hkind d context).mono fun t s' _ ⟨ht, h', hdirty⟩ => ?_
    exact ⟨ht, c, le_rfl, Nat.le_succ c, fun hk => (hkind hk).elim, fun hs => (hdirty hs).elim, h'⟩

/-! ### Names -/

theorem Good.intern (h : Good g c s) (text : Bytes) :
    Lays (intern text) (fun _ s' => Good g c s') s := by
  intro v s' hv
  cases hv
  exact ⟨⟨le_rfl, .refl _, List.prefix_rfl, List.prefix_rfl,
    fun _ _ h => StringInterner.get?_intern_of_get? h text⟩, { h with }⟩

theorem Good.internText (h : Good g c s) (span : Span) :
    Lays (internText span) (fun _ s' => Good g c s') s :=
  Lays.read rfl (h.intern _)

theorem Good.expectAndIntern (h : Good g c s) (hk : k ≠ .eof) (d : DiagID) :
    Lays (expectAndIntern k d) (fun _ s' => Behind g c k s') s := by
  unfold Parser.expectAndIntern
  refine (h.expect hk d "").bind ?_
  rintro t s₁ hle₁ ⟨-, b, hcb, hbc, hb, hclean, h₁⟩
  refine (h₁.internText _).mono fun _ s₂ hle₂ h₂ => ?_
  exact ⟨b, hcb, hbc, hb, fun hs => hclean (hle₂.clean hs), h₂⟩

theorem Good.expectName (h : Good g c s) (hk : k ≠ .eof) (construct : String) :
    Lays (expectName k construct) (fun _ s' => Behind g c k s' ∧ (g.kind c ≠ k → Good g c s')) s := by
  unfold Parser.expectName
  refine (h.consume hk).bind ?_
  rintro _ s₁ hle₁ (⟨rfl, hkind, h₁⟩ | ⟨rfl, hkind, rfl⟩)
  · refine Lays.read rfl ((h₁.internText _).mono fun _ s₂ hle₂ h₂ => ?_)
    exact ⟨⟨c + 1, Nat.le_succ c, le_rfl, fun _ => rfl, fun _ => rfl, h₂⟩,
      fun hne => (hne hkind).elim⟩
  · refine h.bindPeekToken (Lays.bind (h.report (g.proper_span c) fun _ hl => nomatch hl) ?_)
    rintro _ s₂ - ⟨h₂, hdirty⟩
    refine (h₂.internText _).mono fun _ s₃ hle₃ h₃ => ?_
    exact ⟨⟨c, le_rfl, Nat.le_succ c, fun hk => (hkind hk).elim,
      fun hs => (hdirty (hle₃.clean hs)).elim, h₃⟩, fun _ => h₃⟩

def isRegime (k : Token.Kind) : Bool := k = .kw_imm || k = .kw_mut || k = .kw_proj

theorem Good.parseRegime (h : Good g c s) :
    Lays parseRegime (fun _ s' => ∃ b, c ≤ b ∧ b = (if isRegime (g.kind c) then c + 1 else c) ∧
      Good g b s') s := by
  unfold Parser.parseRegime
  refine h.bindPeek ?_
  split
  · refine h.bindAdvance (by simp [*]) fun s₁ _ h₁ => Lays.pure ⟨c + 1, Nat.le_succ c, ?_, h₁⟩
    simp [isRegime, *]
  · refine h.bindAdvance (by simp [*]) fun s₁ _ h₁ => Lays.pure ⟨c + 1, Nat.le_succ c, ?_, h₁⟩
    simp [isRegime, *]
  · refine h.bindAdvance (by simp [*]) fun s₁ _ h₁ => Lays.pure ⟨c + 1, Nat.le_succ c, ?_, h₁⟩
    simp [isRegime, *]
  · refine Lays.pure ⟨c, le_rfl, ?_, h⟩
    rw [if_neg]
    simp only [isRegime, Bool.or_eq_true, decide_eq_true_eq, not_or]
    exact ⟨⟨‹_›, ‹_›⟩, ‹_›⟩

/-! ### Struct literals allowed or not -/

theorem Lays.withStructLit {allowed : Bool} (h : Good g c s)
    (hm : ∀ s', s.Later s' → Good g c s' → Lays m Q s')
    (hQ : ∀ v s' x, Q v s' → Q v { s' with structLitAllowed := x }) :
    Lays (withStructLit allowed m) Q s := by
  intro v s'' hv
  have hle : s.Later { s with structLitAllowed := allowed } :=
    ⟨le_rfl, .refl _, List.prefix_rfl, List.prefix_rfl, fun _ _ h => h⟩
  have hgood : Good g c { s with structLitAllowed := allowed } := { h with }
  change (do let p ← m { s with structLitAllowed := allowed }
             Except.ok (p.1, { p.2 with structLitAllowed := s.structLitAllowed })) = _ at hv
  cases hms : m { s with structLitAllowed := allowed } with
  | error e =>
    rw [hms] at hv
    cases hv
  | ok p =>
    obtain ⟨w, s'⟩ := p
    rw [hms] at hv
    cases hv
    obtain ⟨hle', hQ'⟩ := hm _ hle hgood w s' hms
    exact ⟨⟨(hle.trans hle').forward, (hle.trans hle').pool, (hle.trans hle').errors,
      (hle.trans hle').slips, (hle.trans hle').names⟩, hQ w s' _ hQ'⟩

/-! ### New nodes -/

theorem NodePool.within_alloc (p : NodePool) (r : NodeRecord) : p.Within (p.allocRecord r) where
  nodes i d hd := by
    cases i with
    | none => cases hd
    | some i =>
      have hlt := (List.getElem?_eq_some_iff.mp hd).1
      exact (List.getElem?_append_left hlt).trans hd
  spans i x hx := by
    cases i with
    | none => cases hx
    | some i =>
      have hlt := (List.getElem?_eq_some_iff.mp hx).1
      exact (List.getElem?_append_left hlt).trans hx

theorem within_concat (rs : List NodeRecord) (r : NodeRecord) :
    (poolOf rs).Within (poolOf (rs ++ [r])) := by
  rw [poolOf_concat]
  exact (poolOf rs).within_alloc r

/-- A new node keeps the invariant when its span is proper and its children nest. -/
theorem Good.allocated (h : Good g c s) {kind : NodeKind} {z : Span} {kids : List NodeIndex}
    {payload flags : ℕ} (hspan : s.Fine → Proper g.size z) (hnest : s.Clean → s.pool.Nests z kids) :
    Lays (alloc kind z kids payload flags) (fun i s' => Good g c s' ∧
      s'.pool.spanOf? i = some z ∧ ∃ d, s'.pool.get? i = some d ∧ d.kind = kind) s := by
  intro i s' hi
  obtain ⟨rs, hp, hfine, hnests⟩ := h.records
  have hrec : (rs ++ [(⟨kind, z, kids, payload, flags⟩ : NodeRecord)])[rs.length]? =
      some ⟨kind, z, kids, payload, flags⟩ := List.getElem?_concat_length
  have hwithin := within_concat rs ⟨kind, z, kids, payload, flags⟩
  rw [← hp] at hwithin
  rw [alloc_records hp] at hi
  cases hi
  refine ⟨⟨le_rfl, hwithin, List.prefix_rfl, List.prefix_rfl, fun _ _ h => h⟩,
    ⟨h.tokens, h.cursor, ⟨_, rfl, fun hs r hr => ?_, fun hs r hr => ?_⟩, h.errors, ?_⟩,
    spanOf?_of_record hrec, nodeAt _ rs.length ⟨kind, z, kids, payload, flags⟩,
    get?_of_record hrec, rfl⟩
  · rcases List.mem_append.mp hr with hr | hr
    · exact hfine hs r hr
    · rw [List.mem_singleton.mp hr]
      exact hspan hs
  · rcases List.mem_append.mp hr with hr | hr
    · exact hwithin.nests (hnests hs r hr)
    · rw [List.mem_singleton.mp hr]
      exact hwithin.nests (hnest hs)
  · intro hmem
    obtain ⟨hne, j, z, hz, hlt⟩ := h.exposed hmem
    exact ⟨hne, j, z, hwithin.spans j z hz, hlt⟩

/-- A node behind its documentation and around its other children. -/
theorem Good.allocSpot (h : Good g c s) {kind : NodeKind} {docs kids ks : List NodeIndex}
    {payload flags : ℕ} (hks : ks = docs ++ kids) (hkind : kind ≠ .DocComment)
    (hdocs : DocKids s x docs) (hkids : Kids s x y kids)
    (hspan : s.Fine → g.start a ≤ x ∧ x ≤ y ∧ g.before (a + 1) ≤ y ∧ y ≤ g.before (c + 1))
    (hclean : s.Clean → y ≤ g.before c) :
    Lays (alloc kind ⟨x, y⟩ ks payload flags)
      (fun i s' => Good g c s' ∧ Spot g s' a c i ⟨x, y⟩) s := by
  have hproper : s.Fine → Proper g.size ⟨x, y⟩ := fun hs =>
    ⟨(hspan hs).2.1, (hspan hs).2.2.2.trans (g.before_le_size _)⟩
  refine (h.allocated hproper fun hs => ⟨docs, kids, hks, hdocs hs, hkids hs⟩).mono ?_
  rintro i s' hle ⟨h', hx, d, hd, rfl⟩
  exact ⟨h', ⟨hx, d, hd, hkind⟩, fun hs => hspan (hle.fine hs), fun hs => hclean (hle.clean hs)⟩

theorem Good.alloc (h : Good g c s) {kind : NodeKind} {docs kids ks : List NodeIndex}
    {payload flags : ℕ} (hks : ks = docs ++ kids) (hkind : kind ≠ .DocComment)
    (hdocs : DocKids s x docs) (hkids : Kids s x y kids)
    (hspan : s.Fine → g.start a ≤ x ∧ x ≤ y ∧ g.before (a + 1) ≤ y ∧ y ≤ g.before (c + 1))
    (hclean : s.Clean → y ≤ g.before c) :
    Lays (alloc kind ⟨x, y⟩ ks payload flags) (fun i s' => Good g c s' ∧ Placed g s' a c i) s :=
  (h.allocSpot hks hkind hdocs hkids hspan hclean).mono fun _ _ _ ⟨h', hi⟩ => ⟨h', _, hi⟩

/-- A documentation comment over the previous token. -/
theorem Good.allocDoc (h : Good g (c + 1) s) (payload : ℕ) :
    Lays (allocLeaf .DocComment (g.span c) payload)
      (fun i s' => Good g (c + 1) s' ∧ DocKids s' (g.before (c + 1)) [i]) s := by
  have hproper : Proper g.size (g.span c) := g.proper_span c
  have hnone : s.pool.Nests (g.span c) [] :=
    ⟨[], [], rfl, fun _ hi => (nomatch hi), hproper.1⟩
  refine (h.allocated (fun _ => hproper) fun _ => hnone).mono ?_
  rintro i s' - ⟨h', hx, d, hd, hkind⟩
  refine ⟨h', fun _ j hj => ?_⟩
  rw [List.mem_singleton.mp hj]
  exact ⟨_, hx, le_rfl, d, hd, hkind⟩

/-- A node that ends with a closing token `j`. -/
theorem Behind.alloc {j : ℕ} (h : Behind g j k s) {a' : ℕ} (haa : a' ≤ a) (haj : a ≤ j)
    {kind : NodeKind} {docs kids ks : List NodeIndex} {payload flags : ℕ} (hks : ks = docs ++ kids)
    (hkind : kind ≠ .DocComment) (hdocs : DocKids s (g.start a) docs)
    (hkids : Kids s (g.start a) (g.before j) kids) :
    Lays (Parser.alloc kind ⟨g.start a, g.before (j + 1)⟩ ks payload flags)
      (LaidIf (a' < j) g a') s := by
  obtain ⟨b, hjb, -, -, hb, hgood⟩ := h
  refine ((hgood.alloc (a := a') hks hkind hdocs (hkids.to (g.before_mono (Nat.le_succ j)))
    (fun _ => ⟨?_, ?_, ?_, ?_⟩) fun hs => ?_).mono ?_)
  · exact g.start_mono haa
  · exact g.start_le_before_of_lt (by omega)
  · exact g.before_mono (by omega)
  · exact g.before_mono (by omega)
  · rw [hb hs]
  · exact fun i s' _ hi => ⟨b, by omega, fun hlt => by omega, hi⟩

/-- A node that ends with the previous token. -/
theorem Good.allocPrevious (h : Good g (c + 1) s) {a' : ℕ} (haa : a' ≤ a) (hac : a ≤ c)
    {kind : NodeKind} {docs kids ks : List NodeIndex} {payload flags : ℕ} (hks : ks = docs ++ kids)
    (hkind : kind ≠ .DocComment) (hdocs : DocKids s (g.start a) docs)
    (hkids : Kids s (g.start a) (g.before (c + 1)) kids) :
    Lays (Parser.alloc kind ⟨g.start a, g.before (c + 1)⟩ ks payload flags)
      (LaidMoving g a') s := by
  refine (h.alloc (a := a') hks hkind hdocs hkids (fun _ => ⟨?_, ?_, ?_, ?_⟩)
    fun _ => le_rfl).mono ?_
  · exact g.start_mono haa
  · exact g.start_le_before_of_lt (by omega)
  · exact g.before_mono (by omega)
  · exact g.before_mono (by omega)
  · exact fun i s' _ hi => ⟨c + 1, by omega, fun _ => by omega, hi⟩

theorem Placed.spanOf (h : Placed g s a b i) {f : Span → ParserM β}
    (hf : ∀ z, Spot g s a b i z → Lays (f z) R s) : Lays (Parser.spanOf i >>= f) R s := by
  obtain ⟨z, hz⟩ := h
  exact hz.1.spanOf (hf z hz)

/-- The last child of a node, up to its end. -/
theorem Spot.kids {z : Span} {m : ℕ} (hz : Spot g s a b i z) (hm : m ≤ a) :
    Kids s (g.before m) z.end [i] := by
  obtain ⟨hlies, hfine, -⟩ := hz
  intro hs
  obtain ⟨hstart, hord, -, -⟩ := hfine hs.fine
  exact (NodePool.Row.one hlies hord).from ((g.before_le_start_of_le hm).trans hstart)

/-- A node from a token to the end of its last child. -/
theorem Good.allocTo {e m : ℕ} (h : Good g c s) {a' : ℕ} (haa : a' ≤ a) (hab : a ≤ b) (hec : e ≤ c)
    (hbc : b ≤ c) {z : Span} (hz : Spot g s b e i z) (hm : m ≤ b) (hes : Kids s (g.start a)
      (g.before m) is) {kind : NodeKind} (hkind : kind ≠ .DocComment) {payload flags : ℕ} :
    Lays (Parser.alloc kind ⟨g.start a, z.end⟩ (is ++ [i]) payload flags) (LaidIf (a' < c) g a')
      s := by
  refine (h.alloc (a := a') rfl hkind DocKids.none (hes.append (hz.kids hm)) (fun hs => ?_)
    fun hs => ?_).mono fun _ _ _ hi => ⟨c, by omega, id, hi⟩
  · obtain ⟨hstart, hord, hlow, hhigh⟩ := hz.2.1 hs
    refine ⟨g.start_mono haa, ((g.start_mono hab).trans hstart).trans hord, ?_, ?_⟩
    · exact (g.before_mono (by omega)).trans hlow
    · exact hhigh.trans (g.before_mono (by omega))
  · exact (hz.2.2 hs).trans (g.before_mono hec)

theorem Spot.end_le {z : Span} {j : ℕ} (h : Spot g s a b i z) (hbj : b < j) (hs : s.Fine) :
    z.end ≤ g.before j :=
  (h.2.1 hs).2.2.2.trans (g.before_mono hbj)

/-- A node from the start of its first child. -/
theorem Good.allocFrom (h : Good g c s) (hac : a ≤ c) {z : Span} (hz : Spot g s a b i z)
    (hrest : Kids s (g.before b) y is) (hy : s.Fine → z.end ≤ y ∧ y ≤ g.before (c + 1))
    (hclean : s.Clean → y ≤ g.before c) {kind : NodeKind} (hkind : kind ≠ .DocComment)
    {payload flags : ℕ} :
    Lays (Parser.alloc kind ⟨z.start, y⟩ (i :: is) payload flags) (LaidIf (a < c) g a) s := by
  have hks : i :: is = [] ++ (i :: is) := rfl
  refine (h.alloc (a := a) hks hkind DocKids.none (fun hs => ?_) (fun hs => ?_)
    hclean).mono fun _ _ _ hi => ⟨c, hac, id, hi⟩
  · have hord := (hz.2.1 hs.fine).2.1
    exact (NodePool.Row.one hz.1 hord).append ((hrest hs).from (hz.2.2 hs))
  · obtain ⟨hstart, hord, hlow, -⟩ := hz.2.1 hs
    obtain ⟨hend, hhigh⟩ := hy hs
    exact ⟨hstart, hord.trans hend, hlow.trans hend, hhigh⟩

/-- A leaf over the previous token. -/
theorem Good.allocToken (h : Good g (c + 1) s) {kind : NodeKind} (hkind : kind ≠ .DocComment)
    (payload : ℕ) :
    Lays (allocLeaf kind (g.span c) payload)
      (fun i s' => Good g (c + 1) s' ∧ Placed g s' c (c + 1) i) s := by
  have hle : g.start c ≤ g.before (c + 1) := g.start_le_before c
  refine h.alloc (List.append_nil []).symm hkind DocKids.none (Kids.none hle)
    (fun _ => ⟨le_rfl, hle, le_rfl, g.before_mono (Nat.le_succ _)⟩) fun _ => le_rfl

/-- An error node over a token that is just before the cursor or at it. -/
theorem Good.errorNode {j : ℕ} (h : Good g c s) (hdirty : ¬ s.Clean) (haj : a ≤ j) (hjc : j ≤ c) :
    Lays (makeErrorNode (g.span j)) (fun i s' => Good g c s' ∧ Placed g s' a c i) s := by
  refine h.alloc (List.append_nil []).symm (by decide) DocKids.none (fun hs => (hdirty hs).elim)
    (fun _ => ⟨g.start_mono haj, g.start_le_before j, ?_, ?_⟩) fun hs => (hdirty hs).elim
  · exact g.before_mono (by omega)
  · exact g.before_mono (by omega)

/-- An error node over the token at the cursor. -/
theorem Good.errorHere (h : Good g c s) (hdirty : ¬ s.Clean) (hac : a ≤ c) :
    Lays (makeErrorNode (g.side.tokenAt c).tokenSpan) (LaidIf (a < c) g a) s :=
  (h.errorNode hdirty hac le_rfl).mono fun _ _ _ hi => ⟨c, hac, id, hi⟩

/-- The error that the token at the cursor is none that was expected, and a node for it. -/
theorem Good.rejectHere (h : Good g c s) (id : DiagID) :
    Lays (do
      Parser.addError (g.side.tokenAt c).tokenSpan id
      makeErrorNode (g.side.tokenAt c).tokenSpan) (Laid g c) s := by
  refine Lays.bind (h.addError (g.proper_span c) id) ?_
  rintro _ s₁ - ⟨h₁, hdirty⟩
  exact (h₁.errorHere hdirty le_rfl).mono fun _ _ _ hi => hi.laid

end Eter.Parser
