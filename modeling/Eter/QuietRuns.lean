import Eter.DeclarationWalks
import Eter.Silence
import Eter.Grammar

/-!
# What quiet runs have read

A production that reports nothing has found tokens of which it could make something. Its steps are
rules again: each says what is known when the rest of the production is quiet, too.
-/

namespace Eter.Parser
open Stateful NodePool Diag

instance : Preorder PState where
  le := PState.Precedes
  le_refl := .refl
  le_trans _ _ _ := .trans

variable {α β : Type} {st : TokenStream} {lit b : Bool} {s t : PState} {n e i j : ℕ}
  {m m' : ParserM α} {Q : α → PState → Prop}

/-! ### Every step leads on -/

theorem ascends_of_leads (h : Leads PState.Precedes m) : Ascends m := ⟨h⟩

theorem precedes_walk : DeclWalk fun _ m => Leads PState.Precedes m := precedes_grow.declWalk

instance : Ascends peek := ascends_of_leads precedes_walk.peek
instance : Ascends peekToken := ascends_of_leads precedes_walk.peekToken
instance : Ascends previous := ascends_of_leads precedes_walk.previous
instance : Ascends atEof := ascends_of_leads precedes_walk.atEof
instance : Ascends advance := ascends_of_leads precedes_walk.advance
instance : Ascends errorsSize := ascends_of_leads precedes_walk.errorsSize
instance (k : Token.Kind) : Ascends (check k) := ascends_of_leads (precedes_walk.check k)
instance (k : Token.Kind) : Ascends (consume k) := ascends_of_leads (precedes_walk.consume k)
instance (text : Bytes) : Ascends (intern text) := ascends_of_leads (precedes_walk.intern text)
instance (id : InternedStr) : Ascends (getText id) := ascends_of_leads (precedes_walk.getText id)
instance (x : NodeIndex) : Ascends (kindOf x) := ascends_of_leads (precedes_walk.kindOf x)
instance (x : NodeIndex) : Ascends (spanOf x) := ascends_of_leads (precedes_walk.spanOf x)
instance (d : PhaseDiagnostic) : Ascends (report d) := ascends_of_leads (precedes_walk.report d)
instance (k : Token.Kind) : Ascends (countStray k) := ascends_of_leads (precedes_walk.countStray k)
instance (e : Slip) : Ascends (slip e) := ascends_of_leads (precedes_walk.slip e)
instance (span : Span) : Ascends (internText span) := ascends_of_leads (precedes_walk.internText span)
instance (stop : Token.Kind → Bool) : Ascends (skipUntil stop) :=
  ascends_of_leads (precedes_walk.skipUntil stop)

instance (kind : NodeKind) (span : Span) (xs : List NodeIndex) (payload flags : ℕ) :
    Ascends (alloc kind span xs payload flags) := ascends_of_leads (precedes_walk.alloc _ _ _ _ _)

instance (kind : NodeKind) (span : Span) (payload : ℕ) : Ascends (allocLeaf kind span payload) :=
  ascends_of_leads (precedes_walk.allocLeaf _ _ _)

instance (span : Span) (id : DiagID) : Ascends (addError span id) :=
  ascends_of_leads (precedes_walk.addError span id)

instance : Ascends skip := ascends_of_leads precedes_walk.skip

instance (span : Span) : Ascends (makeErrorNode span) :=
  ascends_of_leads (precedes_walk.makeErrorNode span)

instance [h : Ascends m] : Ascends (withStructLit b m) :=
  ascends_of_leads (precedes_walk.structLit b h.le)

instance (k : Token.Kind) (d : DiagID) (context : String) : Ascends (expect k d context) :=
  ascends_of_leads (precedes_walk.expect k d context)

instance (k : Token.Kind) (construct : String) : Ascends (expectName k construct) :=
  ascends_of_leads (precedes_walk.expectName k construct)

instance {β γ : Type} {turn : β → ParserM (Turn β γ)} [∀ b, Ascends (turn b)] (b : β) :
    Ascends (iterate turn n b) :=
  Ascends.iterate n b

theorem run_walk (n : ℕ) : DeclWalkRec (fun _ m => Leads PState.Precedes m) (run n) :=
  precedes_walk.run n

instance (call : Call) : Ascends (run n call) := by
  have h := run_walk n
  cases call with
  | expr m => exact ascends_of_leads (h.expr m)
  | type => exact ascends_of_leads h.type
  | pat => exact ascends_of_leads h.pat
  | stmt => exact ascends_of_leads h.stmt
  | block => exact ascends_of_leads h.block
  | ifExpr => exact ascends_of_leads h.ifExpr
  | topLevelDecl => exact ascends_of_leads h.topLevelDecl

/-! ### Quiet runs -/

def PState.noise (s : PState) : ℕ := s.errors.length

theorem noise_mono : Monotone PState.noise := fun _ _ (h : PState.Precedes _ _) => h.errors.length_le

/-- Every run from `s` that reports nothing ends in `Q`. -/
abbrev Quiet (m : ParserM α) (Q : α → PState → Prop) (s : PState) : Prop :=
  Silent PState.noise m Q s

/-- The state stands before token `i` of the stream, with `e` diagnostics reported. -/
structure AtToken (st : TokenStream) (lit : Bool) (e i : ℕ) (s : PState) : Prop where
  tokens : s.stream.tokens = st.tokens
  source : s.stream.source = st.source
  lit : s.structLitAllowed = lit
  cursor : s.stream.cursor = i
  noise : s.noise = e

theorem AtToken.later (h : AtToken st lit e i s) (hst : s ≤ t) (hnoise : t.noise = s.noise) :
    AtToken st lit e t.stream.cursor t := by
  have hle : s.Precedes t := hst
  exact ⟨hle.tokens.trans h.tokens, hle.source.trans h.source, hle.lit.trans h.lit, rfl,
    hnoise.trans h.noise⟩

theorem AtToken.kind (h : AtToken st lit e i s) : s.stream.peek 0 = st.kindAt i := by
  unfold TokenStream.kindAt TokenStream.peek
  rw [h.tokens, h.cursor]

theorem AtToken.kindNext (h : AtToken st lit e i s) : s.stream.peek 1 = st.kindAt (i + 1) := by
  unfold TokenStream.kindAt TokenStream.peek
  rw [h.tokens, h.cursor]

theorem AtToken.token (h : AtToken st lit e i s) : s.stream.peekToken 0 = st.tokenAt i := by
  unfold TokenStream.tokenAt TokenStream.peekToken TokenStream.endToken
  rw [h.tokens, h.cursor]

theorem AtToken.textOf (h : AtToken st lit e i s) (span : Span) :
    s.stream.textOf span = st.textOf span := by
  unfold TokenStream.textOf
  rw [h.source]

/-! ### Steps -/

theorem AtToken.call {f : α → ParserM β} {R : α → PState → Prop} {Q : β → PState → Prop}
    [Ascends m] [∀ a, Ascends (f a)] (h : AtToken st lit e i s) (hm : Quiet m R s)
    (hf : ∀ a j t, AtToken st lit e j t → t.stream.cursor = j → R a t → Quiet (f a) Q t) :
    Quiet (m >>= f) Q s :=
  hm.bind noise_mono fun a t hst hnoise hR => hf a _ t (h.later hst hnoise) rfl hR

theorem AtToken.peek {f : Token.Kind → ParserM α} (h : AtToken st lit e i s)
    (hf : Quiet (f (st.kindAt i)) Q s) : Quiet (Parser.peek >>= f) Q s := by
  rw [← h.kind] at hf
  exact Silent.read rfl hf

theorem AtToken.peekNext {f : Token.Kind → ParserM α} (h : AtToken st lit e i s)
    (hf : Quiet (f (st.kindAt (i + 1))) Q s) : Quiet (peekAt 1 >>= f) Q s := by
  rw [← h.kindNext] at hf
  exact Silent.read rfl hf

theorem AtToken.peekToken {f : Token → ParserM α} (h : AtToken st lit e i s)
    (hf : Quiet (f (st.tokenAt i)) Q s) : Quiet (Parser.peekToken >>= f) Q s := by
  rw [← h.token] at hf
  exact Silent.read rfl hf

theorem AtToken.text {f : Bytes → ParserM α} {span : Span} (h : AtToken st lit e i s)
    (hf : Quiet (f (st.textOf span)) Q s) : Quiet (Parser.textOf span >>= f) Q s := by
  rw [← h.textOf] at hf
  exact Silent.read rfl hf

theorem AtToken.check {w : Token.Kind} {f : Bool → ParserM α} (h : AtToken st lit e i s)
    (hf : Quiet (f (decide (st.kindAt i = w))) Q s) : Quiet (Parser.check w >>= f) Q s := by
  rw [← h.kind] at hf
  exact Silent.read rfl hf

theorem AtToken.atEof {f : Bool → ParserM α} (h : AtToken st lit e i s)
    (hf : Quiet (f (decide (st.kindAt i = .eof))) Q s) : Quiet (Parser.atEof >>= f) Q s := by
  rw [← h.kind] at hf
  exact Silent.read rfl hf

theorem AtToken.branch {w : Token.Kind} (h : AtToken st lit e i s)
    (hm : st.kindAt i = w → Quiet m Q s) (hm' : st.kindAt i ≠ w → Quiet m' Q s) :
    Quiet (do if ← Parser.check w then m else m') Q s := by
  refine h.check ?_
  by_cases hk : st.kindAt i = w
  · rw [decide_eq_true hk, if_pos rfl]
    exact hm hk
  · rw [decide_eq_false hk, if_neg Bool.false_ne_true]
    exact hm' hk

/-- The branch for another token reports it. -/
theorem AtToken.unless {w : Token.Kind} (h : AtToken st lit e i s)
    (hm : st.kindAt i ≠ w → Quiet m Q s) (hm' : st.kindAt i = w → Quiet m' Q s) :
    Quiet (do if !(← Parser.check w) then m else m') Q s := by
  refine h.check ?_
  by_cases hk : st.kindAt i = w
  · rw [decide_eq_true hk, Bool.not_true, if_neg Bool.false_ne_true]
    exact hm' hk
  · rw [decide_eq_false hk, Bool.not_false, if_pos rfl]
    exact hm hk

theorem AtToken.previous {f : Token → ParserM α} (h : AtToken st lit e (i + 1) s)
    (hk : st.kindAt i ≠ .eof) (hf : Quiet (f (st.tokenAt i)) Q s) :
    Quiet (Parser.previous >>= f) Q s := by
  have hlt := lt_of_kindAt_stream hk
  have hprev : s.stream.previous = st.tokenAt i := by
    unfold TokenStream.previous TokenStream.tokenAt TokenStream.peekToken
    rw [h.cursor, h.tokens]
    simp [List.getElem?_eq_getElem hlt]
  rw [← hprev] at hf
  exact Silent.read rfl hf

/-- A step of which only the result is unknown. -/
theorem Quiet.reads {f : α → ParserM β} {Q : β → PState → Prop}
    (hm : ∀ a t, m s = .ok (a, t) → t = s) (hf : ∀ a, Quiet (f a) Q s) : Quiet (m >>= f) Q s := by
  intro b u hbind hu
  obtain ⟨a, t, ha, hb⟩ := of_bind_ok hbind
  obtain rfl := hm a t ha
  exact hf a b u hb hu

theorem Quiet.spanOf {x : NodeIndex} {f : Span → ParserM α} (hf : ∀ span, Quiet (f span) Q s) :
    Quiet (Parser.spanOf x >>= f) Q s := by
  refine Quiet.reads (fun a t hm => ?_) hf
  unfold Parser.spanOf at hm
  split at hm <;> cases hm
  rfl

theorem Quiet.previous {f : Token → ParserM α} (hf : ∀ tok, Quiet (f tok) Q s) :
    Quiet (Parser.previous >>= f) Q s :=
  Quiet.reads (fun a t hm => by cases hm; rfl) hf

/-- Behind a diagnostic no run is quiet. -/
theorem Quiet.report {d : PhaseDiagnostic} {f : Unit → ParserM α} [∀ a, Ascends (f a)] :
    Quiet (Parser.report d >>= f) Q s :=
  Silent.loud noise_mono fun _ _ hm => by
    cases hm
    simp [PState.noise]

theorem Quiet.reports {d : PhaseDiagnostic} {Q : Unit → PState → Prop} :
    Quiet (Parser.report d) Q s := by
  rw [← bind_pure (Parser.report d)]
  exact Quiet.report

/-- A step of which nothing is known. -/
theorem Quiet.behind {f : α → ParserM β} {Q : β → PState → Prop} [Ascends m] [∀ a, Ascends (f a)]
    (hf : ∀ a t, Quiet (f a) Q t) : Quiet (m >>= f) Q s :=
  Silent.bind noise_mono (R := fun _ _ => True) (fun _ _ _ _ => trivial) fun a t _ _ _ => hf a t

theorem Quiet.addError {loc : Span} {id : DiagID} {f : Unit → ParserM α} [∀ a, Ascends (f a)] :
    Quiet (Parser.addError loc id >>= f) Q s :=
  Quiet.report

theorem AtToken.advance_eq (h : AtToken st lit e i s) (hk : st.kindAt i ≠ .eof) :
    Parser.advance s = .ok (st.tokenAt i, s.moved) := by
  obtain ⟨tok, t, hrun, rfl, rfl⟩ := advance_token (s := s) (by rwa [h.kind])
  rw [hrun, h.token]

theorem AtToken.moved (h : AtToken st lit e i s) : AtToken st lit e (i + 1) s.moved :=
  ⟨h.tokens, h.source, h.lit, congrArg (· + 1) h.cursor, h.noise⟩

theorem AtToken.advance {f : Token → ParserM α} (h : AtToken st lit e i s) (hk : st.kindAt i ≠ .eof)
    (hf : ∀ t, AtToken st lit e (i + 1) t → Quiet (f (st.tokenAt i)) Q t) :
    Quiet (Parser.advance >>= f) Q s :=
  Silent.step (h.advance_eq hk) rfl (hf _ h.moved)

theorem AtToken.consume {w : Token.Kind} {f : Bool → ParserM α} (h : AtToken st lit e i s)
    (hw : w ≠ .eof)
    (hhit : st.kindAt i = w → ∀ t, AtToken st lit e (i + 1) t → Quiet (f true) Q t)
    (hmiss : st.kindAt i ≠ w → Quiet (f false) Q s) : Quiet (Parser.consume w >>= f) Q s := by
  by_cases hk : st.kindAt i = w
  · obtain ⟨c, t, hrun, rfl, rfl⟩ := consume_hit (s := s) (k := w) (by rw [h.kind, hk]) hw
    exact Silent.step hrun rfl (hhit hk _ h.moved)
  · obtain ⟨c, t, hrun, rfl, rfl⟩ := consume_miss (s := s) (k := w) (by rw [h.kind]; exact hk)
    exact Silent.read hrun (hmiss hk)

theorem AtToken.consumed {w : Token.Kind} (h : AtToken st lit e i s) (hw : w ≠ .eof)
    (hm : st.kindAt i = w → ∀ t, AtToken st lit e (i + 1) t → Quiet m Q t)
    (hm' : st.kindAt i ≠ w → Quiet m' Q s) : Quiet (do if ← Parser.consume w then m else m') Q s :=
  h.consume hw (fun hk t ht => by rw [if_pos rfl]; exact hm hk t ht)
    (fun hk => by rw [if_neg Bool.false_ne_true]; exact hm' hk)

theorem AtToken.expect {w : Token.Kind} {d : DiagID} {context : String} {f : Token → ParserM α}
    [∀ a, Ascends (f a)] (h : AtToken st lit e i s) (hw : w ≠ .eof)
    (hf : st.kindAt i = w → ∀ t, AtToken st lit e (i + 1) t → Quiet (f (st.tokenAt i)) Q t) :
    Quiet (Parser.expect w d context >>= f) Q s := by
  unfold Parser.expect
  rw [bind_assoc]
  refine h.consume hw (fun hk t ht => ?_) fun hk => ?_
  · rw [if_pos rfl]
    exact ht.previous (by rwa [hk]) (hf hk t ht)
  · rw [if_neg Bool.false_ne_true, bind_assoc]
    refine h.peekToken ?_
    rw [bind_assoc]
    refine Silent.step rfl rfl ?_
    rw [bind_assoc]
    exact Quiet.report

theorem AtToken.expects {w : Token.Kind} {d : DiagID} {context : String} (h : AtToken st lit e i s)
    (hw : w ≠ .eof) : Quiet (Parser.expect w d context)
      (fun _ t => st.kindAt i = w ∧ AtToken st lit e (i + 1) t) s := by
  rw [← bind_pure (Parser.expect w d context)]
  exact h.expect hw fun hk t ht => Silent.pure ⟨hk, ht⟩

/-! ### Names -/

theorem AtToken.intern {text : Bytes} {f : InternedStr → ParserM α} (h : AtToken st lit e i s)
    (hf : ∀ id t, AtToken st lit e i t → t.interner.get? id = some text → Quiet (f id) Q t) :
    Quiet (Parser.intern text >>= f) Q s :=
  Silent.step rfl rfl (hf _ _ ⟨h.tokens, h.source, h.lit, h.cursor, h.noise⟩
    (StringInterner.get?_intern s.interner text))

theorem AtToken.internText {span : Span} {f : InternedStr → ParserM α} (h : AtToken st lit e i s)
    (hf : ∀ id t, AtToken st lit e i t → t.interner.get? id = some (st.textOf span) →
      Quiet (f id) Q t) : Quiet (Parser.internText span >>= f) Q s := by
  unfold Parser.internText
  rw [bind_assoc]
  exact h.text (h.intern hf)

theorem AtToken.expectName {construct : String} {f : InternedStr → ParserM α} [∀ a, Ascends (f a)]
    (h : AtToken st lit e i s)
    (hf : st.kindAt i = .identifier → ∀ id t, AtToken st lit e (i + 1) t →
      t.interner.get? id = some (st.textAt i) → Quiet (f id) Q t) :
    Quiet (Parser.expectName .identifier construct >>= f) Q s := by
  unfold Parser.expectName
  rw [bind_assoc]
  refine h.consume (by decide) (fun hk t ht => ?_) fun hk => ?_
  · rw [if_pos rfl, bind_assoc]
    exact ht.previous (by rw [hk]; decide) (ht.internText fun id u hu hid => hf hk id u hu hid)
  · rw [if_neg Bool.false_ne_true, bind_assoc]
    refine h.peekToken ?_
    rw [bind_assoc]
    exact Quiet.report

/-! ### Nodes -/

/-- The node is there and no error. -/
def PState.Proper (s : PState) (x : NodeIndex) : Prop :=
  ∃ d, s.pool.get? x = some d ∧ d.kind ≠ .Error

/-- The result is a node, and up to where the run has come a tree was found. -/
def Found (R : ℕ → SyntaxTree → Prop) (x : NodeIndex) (t : PState) : Prop :=
  t.Proper x ∧ ∃ tr, R t.stream.cursor tr

/-- From token `i` on the production finds what is related to the token where it ends. -/
def Finds (st : TokenStream) (lit : Bool) (m : ParserM NodeIndex) (i : ℕ)
    (R : ℕ → SyntaxTree → Prop) : Prop :=
  ∀ e s, AtToken st lit e i s → Quiet m (Found R) s

/-- What the production reads without a diagnostic is the phrase. -/
def Recognises (st : TokenStream) (lit : Bool) (ph : Phrase) (m : ParserM NodeIndex) : Prop :=
  ∀ i, Finds st lit m i fun j tr => Derives st lit ph i j [tr]

variable {R : ℕ → SyntaxTree → Prop} {f : NodeIndex → ParserM α} {mx : ParserM NodeIndex}
  {kind : NodeKind} {span : Span} {xs : List NodeIndex} {payload flags : ℕ} {x : NodeIndex}
  {tr : SyntaxTree} {ph : Phrase}

theorem AtToken.find [Ascends mx] [∀ x, Ascends (f x)] (h : AtToken st lit e i s)
    (hm : Finds st lit mx i R)
    (hf : ∀ x j tr t, AtToken st lit e j t → t.Proper x → R j tr → Quiet (f x) Q t) :
    Quiet (mx >>= f) Q s :=
  h.call (hm e s h) fun x _ t ht hj hfound => by
    obtain ⟨hx, tr, hR⟩ := hfound
    exact hf x _ tr t ht hx (hj ▸ hR)

theorem AtToken.result (h : AtToken st lit e j s) (hx : s.Proper x) (hR : R j tr) :
    Quiet (pure x) (Found R) s :=
  Silent.pure ⟨hx, tr, h.cursor ▸ hR⟩

theorem proper_alloc (hkind : kind ≠ .Error) :
    ({ s with pool := (s.pool.alloc kind span xs payload flags).2 } : PState).Proper
      (s.pool.alloc kind span xs payload flags).1 :=
  ⟨_, List.getElem?_concat_length, hkind⟩

theorem AtToken.alloc_then (h : AtToken st lit e i s) (hkind : kind ≠ .Error)
    (hf : ∀ x t, AtToken st lit e i t → t.Proper x → Quiet (f x) Q t) :
    Quiet (alloc kind span xs payload flags >>= f) Q s :=
  Silent.step rfl rfl (hf _ _ ⟨h.tokens, h.source, h.lit, h.cursor, h.noise⟩ (proper_alloc hkind))

theorem AtToken.alloc (h : AtToken st lit e j s) (hkind : kind ≠ .Error) (hR : R j tr) :
    Quiet (alloc kind span xs payload flags) (Found R) s := by
  rw [← bind_pure (Parser.alloc _ _ _ _ _)]
  exact h.alloc_then hkind fun x t ht hx => ht.result hx hR

theorem AtToken.leaf (h : AtToken st lit e j s) (hkind : kind ≠ .Error) (hR : R j tr) :
    Quiet (allocLeaf kind span payload) (Found R) s :=
  h.alloc hkind hR

theorem Quiet.kindOf {f : NodeKind → ParserM α} (hx : s.Proper x)
    (hf : ∀ kind, kind ≠ .Error → Quiet (f kind) Q s) : Quiet (Parser.kindOf x >>= f) Q s := by
  obtain ⟨d, hd, hkind⟩ := hx
  refine Silent.read (a := d.kind) ?_ (hf _ hkind)
  unfold Parser.kindOf
  rw [hd]

theorem PState.Proper.later (h : s.Proper x) (hst : s ≤ t) : t.Proper x := by
  obtain ⟨d, hd, hkind⟩ := h
  have hle : s.Precedes t := hst
  cases x with
  | none => cases hd
  | some x =>
    refine ⟨d, ?_, hkind⟩
    obtain ⟨rest, hrest⟩ := hle.nodes
    show t.pool.nodes[x]? = some d
    rw [← hrest, List.getElem?_append_left (List.getElem?_eq_some_iff.mp hd).1]
    exact hd

/-- A node that is already there is the result. -/
theorem Quiet.keep [Ascends m] (hx : s.Proper x)
    (hm : Quiet m (fun _ t => ∃ tr, R t.stream.cursor tr) s) :
    Quiet (m >>= fun _ => pure x) (Found R) s :=
  Silent.bind noise_mono hm fun _ _ hst _ hR => Silent.pure ⟨hx.later hst, hR⟩

/-! ### The flag -/

theorem AtToken.allow (h : AtToken st lit e i s) (b : Bool) : AtToken st b e i (s.allow b) :=
  ⟨h.tokens, h.source, rfl, h.cursor, h.noise⟩

theorem Quiet.withStructLit {Q : α → PState → Prop} (hm : Quiet m Q (s.allow b))
    (hQ : ∀ a t, Q a t → Q a (t.allow s.structLitAllowed)) : Quiet (withStructLit b m) Q s := by
  intro a u hrun hu
  change (m (s.allow b) >>= fun p =>
    Except.ok (p.1, p.2.allow s.structLitAllowed)) = _ at hrun
  cases hms : m (s.allow b) with
  | error e =>
    rw [hms] at hrun
    cases hrun
  | ok p =>
    rw [hms] at hrun
    cases hrun
    exact hQ _ _ (hm _ _ hms hu)

/-- Productions that end with the other flag. -/
theorem AtToken.inside (h : AtToken st lit e i s)
    (hm : ∀ t, AtToken st b e i t → Quiet mx (Found R) t) :
    Quiet (withStructLit b mx) (Found R) s :=
  Quiet.withStructLit (hm _ (h.allow b)) fun _ _ hx => hx

end Eter.Parser
