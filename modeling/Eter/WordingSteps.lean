import Eter.Wording
import Eter.QuietRuns

/-!
# Steps and their words

What a step finds at the token it starts from, and which steps cannot disturb a payload.
-/

namespace Eter.Parser
open NodePool Stateful Diag

variable {α β : Type} {st : TokenStream} {s t : PState} {n i j : ℕ} {m : ParserM α}
  {f : α → ParserM β} {R : β → ℕ → PState → Prop} {Q : α → ℕ → PState → Prop}
  {kids : List NodeIndex} {flags : ℕ}

/-! ### Steps that leave the pool as it is -/

instance : Tells st peek :=
  .of_idle retains_walk.peek fun _ _ _ h => by cases h; exact ⟨rfl, rfl⟩

instance : Tells st peekToken :=
  .of_idle retains_walk.peekToken fun _ _ _ h => by cases h; exact ⟨rfl, rfl⟩

instance : Tells st previous :=
  .of_idle retains_walk.previous fun _ _ _ h => by cases h; exact ⟨rfl, rfl⟩

instance : Tells st atEof :=
  .of_idle retains_walk.atEof fun _ _ _ h => by cases h; exact ⟨rfl, rfl⟩

instance : Tells st advance :=
  .of_idle retains_walk.advance fun _ _ _ h => by cases h; exact ⟨rfl, rfl⟩

instance : Tells st errorsSize :=
  .of_idle retains_walk.errorsSize fun _ _ _ h => by cases h; exact ⟨rfl, rfl⟩

instance (k : ℕ) : Tells st (peekAt k) :=
  .of_idle (retains_walk.peekAt k) fun _ _ _ h => by cases h; exact ⟨rfl, rfl⟩

instance (k : Token.Kind) : Tells st (check k) :=
  .of_idle (retains_walk.check k) fun _ _ _ h => by cases h; exact ⟨rfl, rfl⟩

instance (k : Token.Kind) : Tells st (consume k) :=
  .of_idle (retains_walk.consume k) fun _ _ _ h => by cases h; exact ⟨rfl, rfl⟩

instance (x : Span) : Tells st (textOf x) :=
  .of_idle (retains_walk.textOf x) fun _ _ _ h => by cases h; exact ⟨rfl, rfl⟩

instance (text : Bytes) : Tells st (intern text) :=
  .of_idle (retains_walk.intern text) fun _ _ _ h => by cases h; exact ⟨rfl, rfl⟩

instance (d : PhaseDiagnostic) : Tells st (report d) :=
  .of_idle (retains_walk.report d) fun _ _ _ h => by cases h; exact ⟨rfl, rfl⟩

instance (k : Token.Kind) : Tells st (countStray k) :=
  .of_idle (retains_walk.countStray k) fun _ _ _ h => by cases h; exact ⟨rfl, rfl⟩

instance (x : NodeIndex) : Tells st (kindOf x) :=
  .of_idle (retains_walk.kindOf x) fun s _ _ h => by
    unfold kindOf at h
    split at h <;> cases h
    exact ⟨rfl, rfl⟩

instance (x : NodeIndex) : Tells st (spanOf x) :=
  .of_idle (retains_walk.spanOf x) fun s _ _ h => by
    unfold spanOf at h
    split at h <;> cases h
    exact ⟨rfl, rfl⟩

theorem withStructLit_ok {b : Bool} {a : α} (h : withStructLit b m s = .ok (a, t)) :
    ∃ u, m { s with structLitAllowed := b } = .ok (a, u) ∧
      t = { u with structLitAllowed := s.structLitAllowed } := by
  change (m { s with structLitAllowed := b } >>= fun p =>
    Except.ok (p.1, { p.2 with structLitAllowed := s.structLitAllowed })) = _ at h
  cases hm : m { s with structLitAllowed := b } with
  | error e =>
    rw [hm] at h
    cases h
  | ok p =>
    rw [hm] at h
    cases h
    exact ⟨p.2, rfl, rfl⟩

instance (b : Bool) [hm : Tells st m] : Tells st (withStructLit b m) where
  upholds i s h a t ha := by
    obtain ⟨u, hu, rfl⟩ := withStructLit_ok ha
    obtain ⟨hst, hstands, -⟩ := hm.upholds i { s with structLitAllowed := b }
      ⟨h.tokens, h.source, h.cursor, h.slips, h.records⟩ a u hu
    exact ⟨retains_grow.lit s u b hst,
      ⟨hstands.tokens, hstands.source, hstands.cursor, hstands.slips,
        hstands.records⟩, trivial⟩

instance (x : Span) : Tells st (internText x) := by
  unfold internText
  infer_instance

instance (x : Span) (id : DiagID) : Tells st (addError x id) := by
  unfold addError
  infer_instance

instance : Tells st skip := by
  unfold skip
  infer_instance

instance (stop : Token.Kind → Bool) : Tells st (skipTokens stop n) := by
  induction n with
  | zero => exact .fuel
  | succ n ih =>
    unfold skipTokens
    infer_instance

instance (stop : Token.Kind → Bool) : Tells st (skipUntil stop) :=
  ⟨fun i s h => Tells.upholds (m := skipTokens stop _) i s h⟩

instance : Tells st (syncTokens n) := by
  induction n with
  | zero => exact .fuel
  | succ n ih =>
    unfold syncTokens
    infer_instance

instance : Tells st syncRest := ⟨fun i s h => Tells.upholds (m := syncTokens _) i s h⟩

instance : Tells st synchronize := by
  unfold synchronize
  infer_instance

instance (k : Token.Kind) (d : DiagID) (context : String) : Tells st (expect k d context) := by
  unfold expect
  infer_instance

instance (k : Token.Kind) (d : DiagID) : Tells st (expectAndIntern k d) := by
  unfold expectAndIntern
  infer_instance

/-! ### Lists -/

instance (close : Token.Kind) (k : ℕ) : Tells st (resyncElement close k) := by
  unfold resyncElement skipToComma
  infer_instance

instance {el : ParserM NodeIndex} [Tells st el] (xs : List NodeIndex) (close : Token.Kind) :
    Tells st (parseCommaSeparated n xs close el) := by
  unfold parseCommaSeparated commaTurn
  infer_instance

instance {el : ParserM NodeIndex} [Tells st el] (xs : List NodeIndex) (close : Token.Kind → Bool) :
    Tells st (parseMore n xs close el) := by
  unfold parseMore moreTurn
  infer_instance

instance {el : ParserM NodeIndex} [Tells st el] (xs : List NodeIndex) (close : Token.Kind) :
    Tells st (parseUntil n xs close el) := by
  unfold parseUntil untilTurn
  infer_instance

/-! ### What the tokens show -/

theorem Faithful.moved (h : Faithful st i s) : Faithful st (i + 1) s.moved :=
  ⟨h.tokens, h.source, congrArg (· + 1) h.cursor, h.slips, h.records⟩

theorem Faithful.kind (h : Faithful st i s) : s.stream.peek 0 = st.kindAt i := by
  unfold TokenStream.kindAt TokenStream.peek
  rw [h.tokens, h.cursor]

theorem Faithful.token (h : Faithful st i s) : s.stream.peekToken 0 = st.tokenAt i := by
  unfold TokenStream.tokenAt TokenStream.peekToken TokenStream.endToken
  rw [h.tokens, h.cursor]

theorem Faithful.prior (h : Faithful st i s) :
    s.stream.previous.tokenSpan = (st.tokenAt (i - 1)).tokenSpan := by
  unfold TokenStream.previous TokenStream.tokenAt TokenStream.peekToken TokenStream.endToken
  rw [h.tokens, h.cursor]
  cases i with
  | zero => cases st.tokens <;> rfl
  | succ i => cases hi : st.tokens[i]? <;> simp [hi]

theorem Faithful.textOf_eq (h : Faithful st i s) (x : Span) : s.stream.textOf x = st.textOf x := by
  unfold TokenStream.textOf
  rw [h.source]

theorem Faithful.peek {f : Token.Kind → ParserM β} (h : Faithful st i s)
    (hf : Upholds st (f (st.kindAt i)) R s) : Upholds st (Parser.peek >>= f) R s := by
  rw [← h.kind] at hf
  exact Upholds.read rfl hf

theorem Faithful.check {k : Token.Kind} {f : Bool → ParserM β} (h : Faithful st i s)
    (hf : Upholds st (f (decide (st.kindAt i = k))) R s) :
    Upholds st (Parser.check k >>= f) R s := by
  rw [← h.kind] at hf
  exact Upholds.read rfl hf

theorem Faithful.peekToken {f : Token → ParserM β} (h : Faithful st i s)
    (hf : Upholds st (f (st.tokenAt i)) R s) : Upholds st (Parser.peekToken >>= f) R s := by
  rw [← h.token] at hf
  exact Upholds.read rfl hf

theorem Faithful.previous {f : Token → ParserM β} (h : Faithful st i s)
    (hf : ∀ tok, tok.tokenSpan = (st.tokenAt (i - 1)).tokenSpan → Upholds st (f tok) R s) :
    Upholds st (Parser.previous >>= f) R s :=
  Upholds.read rfl (hf _ h.prior)

theorem Faithful.textOf {f : Bytes → ParserM β} {x : Span} (h : Faithful st i s)
    (hf : Upholds st (f (st.textOf x)) R s) : Upholds st (Parser.textOf x >>= f) R s := by
  rw [← h.textOf_eq] at hf
  exact Upholds.read rfl hf

theorem Upholds.spanOf {f : Span → ParserM β} {x : NodeIndex}
    (hf : ∀ y, s.pool.spanOf? x = some y → Upholds st (f y) R s) :
    Upholds st (Parser.spanOf x >>= f) R s := by
  intro b u hbind
  obtain ⟨y, t, hy, hb⟩ := of_bind_ok hbind
  unfold Parser.spanOf at hy
  split at hy
  · next y' hy' =>
    cases hy
    exact hf y hy' b u hb
  · cases hy

theorem Upholds.kindOf {f : NodeKind → ParserM β} {x : NodeIndex}
    (hf : ∀ d, s.pool.get? x = some d → Upholds st (f d.kind) R s) :
    Upholds st (Parser.kindOf x >>= f) R s := by
  intro b u hbind
  obtain ⟨kind, t, hkind, hb⟩ := of_bind_ok hbind
  unfold Parser.kindOf at hkind
  split at hkind
  · next d hd =>
    cases hkind
    exact hf d hd b u hb
  · cases hkind

/-- A step of which only the next state is of interest. -/
theorem Faithful.tell [hm : Tells st m] (h : Faithful st i s)
    (hf : ∀ a j t, Faithful st j t → s.Retains t → Upholds st (f a) R t) :
    Upholds st (m >>= f) R s :=
  (hm.upholds i s h).bind fun a j t ht hst _ => hf a j t ht hst

/-- The last step. -/
theorem Faithful.told [hm : Tells st m] (h : Faithful st i s) :
    Upholds st m (fun _ _ _ => True) s :=
  hm.upholds i s h

/-- A step of which the result is known. -/
theorem Upholds.step {a : α} (hm : m s = .ok (a, t)) (hst : s.Retains t)
    (hf : Upholds st (f a) R t) : Upholds st (m >>= f) R s := by
  intro b u hbind
  obtain ⟨a', t', ha, hb⟩ := of_bind_ok hbind
  rw [hm] at ha
  cases ha
  obtain ⟨htu, hu⟩ := hf b u hb
  exact ⟨hst.trans htu, hu⟩

theorem Faithful.advance {f : Token → ParserM β} (h : Faithful st i s) (hk : st.kindAt i ≠ .eof)
    (hf : ∀ t, Faithful st (i + 1) t → s.Retains t → Upholds st (f (st.tokenAt i)) R t) :
    Upholds st (Parser.advance >>= f) R s := by
  obtain ⟨tok, t, hrun, rfl, rfl⟩ := advance_token (s := s) (by rwa [h.kind])
  rw [h.token] at hrun
  have hst := retains_walk.advance _ _ _ hrun
  exact Upholds.step hrun hst (hf _ h.moved hst)

theorem Faithful.consume {k : Token.Kind} {f : Bool → ParserM β} (h : Faithful st i s)
    (hk : k ≠ .eof) (hf : ∀ t, Faithful st (st.past i k) t → s.Retains t →
      Upholds st (f (decide (st.kindAt i = k))) R t) : Upholds st (Parser.consume k >>= f) R s := by
  unfold TokenStream.past at hf
  by_cases hi : st.kindAt i = k
  · obtain ⟨c, t, hrun, rfl, rfl⟩ := consume_hit (s := s) (k := k) (by rw [h.kind, hi]) hk
    have hst := retains_walk.consume k _ _ _ hrun
    rw [if_pos hi, decide_eq_true hi] at hf
    exact Upholds.step hrun hst (hf _ h.moved hst)
  · obtain ⟨c, t, hrun, rfl, rfl⟩ := consume_miss (s := s) (k := k) (by rw [h.kind]; exact hi)
    rw [if_neg hi, decide_eq_false hi] at hf
    exact Upholds.read hrun (hf _ h (retains_grow.refl _))

theorem Faithful.report {d : PhaseDiagnostic} {f : Unit → ParserM β} (h : Faithful st i s)
    (hf : ∀ t, Faithful st i t → s.Retains t → Upholds st (f ()) R t) :
    Upholds st (Parser.report d >>= f) R s := by
  have hst := retains_walk.report d s _ _ rfl
  exact Upholds.step rfl hst (hf _ ⟨h.tokens, h.source, h.cursor, h.slips, h.records⟩ hst)

theorem Faithful.countStray {k : Token.Kind} {f : Unit → ParserM β} (h : Faithful st i s)
    (hf : ∀ t, Faithful st i t → s.Retains t → Upholds st (f ()) R t) :
    Upholds st (Parser.countStray k >>= f) R s := by
  have hst := retains_walk.countStray k s _ _ rfl
  exact Upholds.step rfl hst (hf _ ⟨h.tokens, h.source, h.cursor, h.slips, h.records⟩ hst)

theorem Faithful.slip {e : Slip} {f : Unit → ParserM β} (h : Faithful st i s) (he : e.Shown st)
    (hf : ∀ t, Faithful st i t → s.Retains t → Upholds st (f ()) R t) :
    Upholds st (Parser.slip e >>= f) R s := by
  have hst := retains_walk.slip e s _ _ rfl
  refine Upholds.step rfl hst (hf _ ⟨h.tokens, h.source, h.cursor, fun e' he' => ?_, h.records⟩ hst)
  rcases List.mem_append.mp he' with he' | he'
  · exact h.slips e' he'
  · rw [List.mem_singleton.mp he']
    exact he

/-- Whether the token is there or not, the result has its span. -/
theorem Faithful.expect {k : Token.Kind} {d : DiagID} {context : String} {f : Token → ParserM β}
    (h : Faithful st i s) (hk : k ≠ .eof)
    (hf : ∀ tok t, tok.tokenSpan = (st.tokenAt i).tokenSpan → Faithful st (st.past i k) t →
      s.Retains t → Upholds st (f tok) R t) : Upholds st (Parser.expect k d context >>= f) R s := by
  unfold Parser.expect
  rw [bind_assoc]
  refine h.consume hk fun t ht hst => ?_
  unfold TokenStream.past at ht hf
  by_cases hi : st.kindAt i = k
  · rw [if_pos hi] at ht hf
    rw [decide_eq_true hi, if_pos rfl]
    exact ht.previous fun tok htok => hf tok t htok ht hst
  · rw [if_neg hi] at ht hf
    rw [decide_eq_false hi, if_neg Bool.false_ne_true, bind_assoc]
    refine ht.peekToken ?_
    simp only [bind_assoc, pure_bind]
    refine ht.countStray fun u hu htu => ?_
    exact hu.report fun v hv huv => hf _ v rfl hv
      (hst.trans (htu.trans huv))

theorem Faithful.intern {text : Bytes} {f : InternedStr → ParserM β} (h : Faithful st i s)
    (hf : ∀ id t, Faithful st i t → s.Retains t → t.interner.get? id = some text →
      Upholds st (f id) R t) : Upholds st (Parser.intern text >>= f) R s := by
  have hst := retains_walk.intern text s _ _ rfl
  obtain ⟨rs, hrs, hworded⟩ := h.records
  have ht : Faithful st i { s with interner := (s.interner.intern text).2 } :=
    ⟨h.tokens, h.source, h.cursor, h.slips, rs, hrs, fun r hr => (hworded r hr).later hst⟩
  exact Upholds.step rfl hst (hf _ _ ht hst (StringInterner.get?_intern s.interner text))

theorem Faithful.internText {x : Span} {f : InternedStr → ParserM β} (h : Faithful st i s)
    (hf : ∀ id t, Faithful st i t → s.Retains t → t.interner.get? id = some (st.textOf x) →
      Upholds st (f id) R t) : Upholds st (Parser.internText x >>= f) R s := by
  unfold Parser.internText
  rw [bind_assoc]
  exact h.textOf (h.intern hf)

/-- Whether the name is there or not, the text of the token is the name. -/
theorem Faithful.expectName {construct : String} {f : InternedStr → ParserM β} (h : Faithful st i s)
    (hf : ∀ id t, Faithful st (st.past i .identifier) t → s.Retains t →
      t.interner.get? id = some (st.textAt i) → Upholds st (f id) R t) :
    Upholds st (Parser.expectName .identifier construct >>= f) R s := by
  unfold Parser.expectName
  rw [bind_assoc]
  refine h.consume (by decide) fun t ht hst => ?_
  unfold TokenStream.past at ht hf
  by_cases hi : st.kindAt i = .identifier
  · rw [if_pos hi] at ht hf
    rw [decide_eq_true hi, if_pos rfl, bind_assoc]
    refine ht.previous fun tok htok => ht.internText fun id u hu htu hid => ?_
    rw [htok] at hid
    exact hf id u hu (hst.trans htu) hid
  · rw [if_neg hi] at ht hf
    rw [decide_eq_false hi, if_neg Bool.false_ne_true, bind_assoc]
    refine ht.peekToken ?_
    rw [bind_assoc]
    refine ht.report fun u hu htu => hu.internText fun id v hv huv hid => ?_
    exact hf id v hv (hst.trans (htu.trans huv)) hid

theorem Faithful.parseRegime {f : Regime → ParserM β} (h : Faithful st i s)
    (hf : ∀ t, Faithful st (st.pastRegime i) t → s.Retains t → Upholds st (f (st.regimeAt i)) R t) :
    Upholds st (Parser.parseRegime >>= f) R s := by
  unfold Parser.parseRegime
  unfold TokenStream.pastRegime TokenStream.regimeAt at hf
  rw [bind_assoc]
  refine h.peek ?_
  cases hk : st.kindAt i <;> rw [hk] at hf <;> simp only [pure_bind, bind_assoc] <;>
    first
    | exact h.advance (by rw [hk]; decide) fun t ht hst => hf t ht hst
    | exact hf s h (retains_grow.refl s)

/-! ### Nodes -/

theorem Faithful.stored {kind : NodeKind} {span : Span} {kids : List NodeIndex} {payload flags : ℕ}
    (h : Faithful st i s) (hw : Worded st s.pool s.interner ⟨kind, span, kids, payload, flags⟩) :
    Upholds st (alloc kind span kids payload flags)
      (fun x j t => j = i ∧ t.pool.spanOf? x = some span) s := by
  intro x t hx
  have hst := retains_walk.alloc kind span kids payload flags s x t hx
  obtain ⟨rs, hrs, hworded⟩ := h.records
  rw [alloc_records hrs] at hx
  cases hx
  refine ⟨hst, ⟨h.tokens, h.source, rfl, h.slips,
    rs ++ [⟨kind, span, kids, payload, flags⟩], rfl, fun r hr => ?_⟩, h.cursor,
    spanOf?_of_record List.getElem?_concat_length⟩
  rcases List.mem_append.mp hr with hr | hr
  · exact (hworded r hr).later hst
  · rw [List.mem_singleton.mp hr]
    exact hw.later hst

/-- Kinds of nodes whose payload is 0. -/
class Plain (kind : NodeKind) : Prop where
  plain : encodingOf kind = .plain

/-- Steps that keep the payloads, and then one node of the kind, with the payload, that starts
there. -/
class Stores (st : TokenStream) (m : ParserM NodeIndex) (kind : outParam NodeKind)
    (a p : outParam ℕ) : Prop where
  stores : ∀ i s, Faithful st i s →
    (∀ t e kids flags, NamesStay s t → Worded st t.pool t.interner ⟨kind, ⟨a, e⟩, kids, p, flags⟩) →
      Upholds st m (fun x _ t => ∃ y, t.pool.spanOf? x = some y ∧ y.start = a) s

section Stores

variable {kind : NodeKind} {a p : ℕ} {mx mx' : ParserM NodeIndex} {fx : α → ParserM NodeIndex}

instance (priority := low) (span : Span) :
    Stores st (alloc kind span kids p flags) kind span.start p where
  stores _ s h hw := (h.stored (hw s span.end kids flags (namesStay_grow.refl s))).mono
    fun _ _ _ _ _ hx => ⟨_, hx.2, rfl⟩

instance (e : ℕ) : Stores st (alloc kind ⟨a, e⟩ kids p flags) kind a p where
  stores _ s h hw := (h.stored (hw s e kids flags (namesStay_grow.refl s))).mono
    fun _ _ _ _ _ hx => ⟨_, hx.2, rfl⟩

instance (span : Span) : Stores st (allocLeaf kind span p) kind span.start p := by
  unfold allocLeaf
  infer_instance

instance [Tells st m] [hf : ∀ v, Stores st (fx v) kind a p] : Stores st (m >>= fx) kind a p where
  stores _ _ h hw := h.tell fun v j t ht hst => (hf v).stores j t ht fun u e kids flags htu =>
    hw u e kids flags (namesStay_grow.trans hst.names htu)

instance {c : Prop} [Decidable c] [hm : Stores st mx kind a p] [hm' : Stores st mx' kind a p] :
    Stores st (if c then mx else mx') kind a p where
  stores := by
    split_ifs
    · exact hm.stores
    · exact hm'.stores

theorem Faithful.within {b : Bool} {Q : α → ℕ → PState → Prop} (h : Faithful st i s)
    (hm : ∀ u, Faithful st i u → u.pool = s.pool → u.interner = s.interner → Upholds st m Q u)
    (hQ : ∀ v j t b, Q v j t → Q v j { t with structLitAllowed := b }) :
    Upholds st (withStructLit b m) Q s := by
  intro v t hv
  obtain ⟨u, hu, rfl⟩ := withStructLit_ok hv
  obtain ⟨hst, ht, hv⟩ := hm { s with structLitAllowed := b }
    ⟨h.tokens, h.source, h.cursor, h.slips, h.records⟩ rfl rfl v u hu
  exact ⟨retains_grow.lit s u b hst, ⟨ht.tokens, ht.source, ht.cursor, ht.slips, ht.records⟩,
    hQ v _ u _ hv⟩

instance (b : Bool) [hm : Stores st mx kind a p] : Stores st (withStructLit b mx) kind a p where
  stores i _ h hw := h.within (fun u hu _ hnames => hm.stores i u hu fun t e kids flags hut =>
    hw t e kids flags fun id text hid => hut id text (hnames ▸ hid)) fun _ _ _ _ hy => hy

/-- A node that holds what its tokens call for. -/
theorem Faithful.holds {name : Option Bytes} {word : ℕ} [hm : Stores st mx kind a p]
    (h : Faithful st i s) (hp : Follows s.interner p name word (encodingOf kind))
    (hspell : ∀ pool e kids, Spelling st pool kind ⟨a, e⟩ kids name word) :
    Upholds st mx (fun x _ t => ∃ y, t.pool.spanOf? x = some y ∧ y.start = a) s :=
  hm.stores i s h fun t e kids _ hst => ⟨name, word, hspell t.pool e kids, fun _ => hp.later hst⟩

theorem Faithful.named {text : Bytes} [Stores st mx kind a p] (h : Faithful st i s)
    (hkind : encodingOf kind = .name) (hp : s.interner.get? p = some text)
    (hspell : ∀ pool e kids, Spelling st pool kind ⟨a, e⟩ kids (some text) 0) :
    Upholds st mx (fun x _ t => ∃ y, t.pool.spanOf? x = some y ∧ y.start = a) s :=
  h.holds (by rw [hkind]; exact hp) hspell

theorem Faithful.packed {id : InternedStr} {text : Bytes} {r : Regime}
    [Stores st mx kind a (makePayload id r)] (h : Faithful st i s)
    (hkind : encodingOf kind = .packed)
    (hid : s.interner.get? id = some text)
    (hspell : ∀ pool e kids, Spelling st pool kind ⟨a, e⟩ kids (some text) r.value) :
    Upholds st mx (fun x _ t => ∃ y, t.pool.spanOf? x = some y ∧ y.start = a) s :=
  h.holds (by rw [hkind]; exact ⟨id, r, hid, rfl, rfl⟩) hspell

/-- A node without a payload. -/
theorem Faithful.plain [hm : Stores st mx kind a 0] [hkind : Plain kind] (h : Faithful st i s) :
    Upholds st mx (fun x _ t => ∃ y, t.pool.spanOf? x = some y ∧ y.start = a) s := by
  have hp : Follows s.interner 0 none 0 (encodingOf kind) := by
    rw [hkind.plain]
    rfl
  exact h.holds hp fun _ _ _ => .plain hkind.plain

end Stores

instance (kind : NodeKind) [h : Plain kind] (span : Span) (kids : List NodeIndex) (flags : ℕ) :
    Tells st (alloc kind span kids 0 flags) :=
  ⟨fun i s hs => (hs.stored ⟨none, 0, .plain h.plain, fun _ => by
    rw [show encodingOf _ = _ from h.plain]; rfl⟩).told⟩

instance (kind : NodeKind) [Plain kind] (span : Span) : Tells st (allocLeaf kind span 0) := by
  unfold allocLeaf
  infer_instance

instance : Plain .Error := ⟨rfl⟩

instance (span : Span) : Tells st (makeErrorNode span) := by
  unfold makeErrorNode
  infer_instance

/-- A node that is all slice. -/
theorem Faithful.slice {kind : NodeKind} {span : Span} {payload : ℕ} (h : Faithful st i s)
    (hkind : isSlice kind = true)
    (hp : Follows s.interner payload (some (st.textOf span)) Regime.None.value (encodingOf kind)) :
    Upholds st (allocLeaf kind span payload)
      (fun x j t => j = i ∧ t.pool.spanOf? x = some span) s :=
  h.stored ⟨_, _, .slice hkind, fun _ => hp⟩

end Eter.Parser
