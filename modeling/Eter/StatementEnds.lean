import Eter.TokenWindows

/-!
# The ends of statements

What is parsed without a report up to the end of a window depends on no token behind it, except that
an `if` looks whether an `else` follows.
-/

namespace Eter.Parser
open Stateful

/-- A computation that consumes a token unless it reports. -/
def Moves {α : Type} (m : ParserM α) : Prop :=
  ∀ s a t, m s = .ok (a, t) → t.errors = s.errors → s.stream.cursor < t.stream.cursor

/-- A computation that, when it reports nothing and consumes no token behind the window, does not
depend on which of the two streams it reads. -/
structure Closes (q p : ℕ) (ts ts' : List Token) {α : Type} (m : ParserM α) : Prop where
  leads : Leads PState.Precedes m
  run : ∀ s a t, s.stream.tokens = ts → s.Entered q → q < p → m s = .ok (a, t) →
    t.errors = s.errors → t.stream.cursor ≤ p → m (s.over ts') = .ok (a, t.over ts')

/-- Behind the window there is no `else`. -/
def NoElse (p : ℕ) (ts : List Token) : Prop := ∀ tok, ts[p]? = some tok → tok.tokenKind ≠ .kw_else

variable {q p n : ℕ} {ts ts' : List Token} {s t u : PState} {α β : Type} {m : ParserM α}
  {f : α → ParserM β} {k : Token.Kind} {d : DiagID} {context : String} {tok : Token} {rec : Rec}

theorem PState.Precedes.silent (h : s.Precedes t) (h' : t.Precedes u) (hu : u.errors = s.errors) :
    t.errors = s.errors ∧ u.errors = t.errors := by
  have hle := h.errors.length_le
  have hle' := h'.errors.length_le
  rw [hu] at hle'
  have heq := h.errors.eq_of_length (by omega)
  exact ⟨heq.symm, hu.trans heq⟩

/-! ### Computations that move -/

theorem Moves.first (hm : Moves m) (hl : Leads PState.Precedes m)
    (hf : ∀ a, Leads PState.Precedes (f a)) : Moves (m >>= f) := by
  intro s b u hb herr
  obtain ⟨a, t, ha, hb⟩ := of_bind_ok hb
  have htu := hf a t b u hb
  exact (hm s a t ha ((hl s a t ha).silent htu herr).1).trans_le htu.forward

theorem Moves.next (hl : Leads PState.Precedes m) (hf : ∀ a, Moves (f a))
    (hfl : ∀ a, Leads PState.Precedes (f a)) : Moves (m >>= f) := by
  intro s b u hb herr
  obtain ⟨a, t, ha, hb⟩ := of_bind_ok hb
  have hst := hl s a t ha
  exact hst.forward.trans_lt (hf a t b u hb (hst.silent (hfl a t b u hb) herr).2)

/-- An expected token that is not reported is there. -/
theorem expect_silent (h : expect k d context s = .ok (tok, t)) (hk : k ≠ .eof)
    (herr : t.errors = s.errors) :
    s.stream.peek 0 = k ∧ tok = s.stream.peekToken 0 ∧ t = s.moved := by
  by_cases hpeek : s.stream.peek 0 = k
  · exact ⟨hpeek, (@expect_hit s k hpeek hk d context).of_eq h⟩
  · have hmiss : Yields (expect k d context) (fun _ u => u.errors ≠ s.errors) s := by
      unfold expect
      refine (consume_miss hpeek).bind ?_
      rintro _ _ ⟨rfl, rfl⟩
      exact ⟨_, _, rfl, by simp⟩
    exact (hmiss.of_eq h herr).elim

theorem Moves.expect (hk : k ≠ .eof) : Moves (expect k d context) := by
  intro s tok t h herr
  obtain ⟨-, -, rfl⟩ := expect_silent h hk herr
  exact Nat.lt_succ_self _

theorem requireSemi_silent {atEnd : Bool} {noteText : String}
    (h : requireSemi atEnd context noteText s = .ok ((), t)) (herr : t.errors = s.errors) :
    s.stream.peek 0 = .semi ∧ t = s.moved := by
  by_cases hpeek : s.stream.peek 0 = .semi
  · have hhit : Yields (requireSemi atEnd context noteText) (fun _ u => u = s.moved) s := by
      unfold requireSemi
      refine (consume_hit hpeek (by decide)).bind ?_
      rintro _ _ ⟨rfl, rfl⟩
      exact Yields.pure rfl
    exact ⟨hpeek, hhit.of_eq h⟩
  · have hmiss : Yields (requireSemi atEnd context noteText) (fun _ u => u.errors ≠ s.errors) s := by
      unfold requireSemi
      refine (consume_miss hpeek).bind ?_
      rintro _ _ ⟨rfl, rfl⟩
      exact ⟨_, _, rfl, by simp⟩
    exact (hmiss.of_eq h herr).elim

/-! ### Rules -/

theorem Closes.bind (hm : Closes q p ts ts' m) (hf : ∀ a, Closes q p ts ts' (f a)) :
    Closes q p ts ts' (m >>= f) where
  leads := precedes_grow.bind hm.leads fun a => (hf a).leads
  run s b u hts hin hqp hb herr hle := by
    obtain ⟨a, t, ha, hb⟩ := of_bind_ok hb
    have hst := hm.leads s a t ha
    have htu := (hf a).leads t b u hb
    obtain ⟨herr, herr'⟩ := hst.silent htu herr
    have ha' := hm.run s a t hts hin hqp ha herr (htu.forward.trans hle)
    have hb' := (hf a).run t b u (hst.tokens.trans hts) (hin.mono hst.forward) hqp hb herr' hle
    show (m (s.over ts') >>= fun r => f r.1 r.2) = _
    rw [ha']
    exact hb'

/-- What stands before something that moves ends inside the window. -/
theorem Closes.after (hm : Local q p ts ts' m) (hf : ∀ a, Closes q p ts ts' (f a))
    (hmv : ∀ a, Moves (f a)) : Closes q p ts ts' (m >>= f) where
  leads := precedes_grow.bind hm.leads fun a => (hf a).leads
  run s b u hts hin hqp hb herr hle := by
    obtain ⟨a, t, ha, hb⟩ := of_bind_ok hb
    have hst := hm.leads s a t ha
    obtain ⟨-, herr'⟩ := hst.silent ((hf a).leads t b u hb) herr
    have ha' := hm.run s a t hts hin ha ((hmv a t b u hb herr').trans_le hle)
    have hb' := (hf a).run t b u (hst.tokens.trans hts) (hin.mono hst.forward) hqp hb herr' hle
    show (m (s.over ts') >>= fun r => f r.1 r.2) = _
    rw [ha']
    exact hb'

theorem Closes.of_stays {g : PState → α} {h : PState → PState}
    (hleads : ∀ s : PState, s.Precedes (h s)) (hg : ∀ s, g (s.over ts') = g s)
    (hh : ∀ s, h (s.over ts') = (h s).over ts') : Closes q p ts ts' (fun s => .ok (g s, h s)) where
  leads s a t hm := by
    cases hm
    exact hleads s
  run s a t _ _ _ hm _ _ := by
    cases hm
    rw [hg, hh]

theorem Closes.pure (a : α) : Closes q p ts ts' (pure a : ParserM α) :=
  .of_stays .refl (fun _ => rfl) fun _ => rfl

theorem Closes.alloc (kind : NodeKind) (span : Span) (kids : List NodeIndex) (payload flags : ℕ) :
    Closes q p ts ts' (alloc kind span kids payload flags) :=
  .of_stays (fun s => precedes_grow.alloc s kind span kids payload flags) (fun _ => rfl)
    fun _ => rfl

theorem Closes.spanOf (i : NodeIndex) : Closes q p ts ts' (spanOf i) where
  leads := precedes_grow.walk.spanOf i
  run s a t _ _ _ hm _ _ := by
    unfold Parser.spanOf at hm ⊢
    dsimp only [PState.over] at hm ⊢
    split at hm <;> cases hm
    rfl

theorem Closes.previous (hw : Window q p ts ts') : Closes q p ts ts' previous where
  leads := precedes_grow.walk.previous
  run s a t hts hin hqp hm _ hle := by
    cases hm
    show Except.ok ((s.over ts').stream.previous, _) = _
    rw [hw.previous_le hts hle hqp hin]

theorem Closes.expect (hw : Window q p ts ts') (hk : k ≠ .eof) :
    Closes q p ts ts' (expect k d context) where
  leads := precedes_grow.walk.expect k d context
  run s tok t hts hin _ hm herr hle := by
    obtain ⟨hpeek, rfl, rfl⟩ := expect_silent hm hk herr
    have hlt : s.stream.cursor < p := hle
    have hpeek' : (s.over ts').stream.peek 0 = k := by rw [hw.peek hts hlt hin.le, hpeek]
    obtain ⟨tok, t, htok, rfl, rfl⟩ := @expect_hit (s.over ts') k hpeek' hk d context
    rw [htok, hw.peekToken hts hlt hin.le]
    rfl

theorem Closes.ite {c : Prop} [Decidable c] {m m' : ParserM α} (hm : Closes q p ts ts' m)
    (hm' : Closes q p ts ts' m') : Closes q p ts ts' (if c then m else m') := by
  split_ifs
  · exact hm
  · exact hm'

/-- What closes and consumes a token unless it reports. -/
structure Shuts (q p : ℕ) (ts ts' : List Token) {α : Type} (m : ParserM α) : Prop
    extends Closes q p ts ts' m where
  moves : Moves m

theorem Shuts.after (hm : Local q p ts ts' m) (hf : ∀ a, Shuts q p ts ts' (f a)) :
    Shuts q p ts ts' (m >>= f) where
  toCloses := .after hm (fun a => (hf a).toCloses) fun a => (hf a).moves
  moves := .next hm.leads (fun a => (hf a).moves) fun a => (hf a).leads

theorem Shuts.tail (hm : Shuts q p ts ts' m) (hf : ∀ a, Closes q p ts ts' (f a)) :
    Shuts q p ts ts' (m >>= f) where
  toCloses := .bind hm.toCloses hf
  moves := .first hm.moves hm.leads fun a => (hf a).leads

theorem Shuts.expect (hw : Window q p ts ts') (hk : k ≠ .eof) :
    Shuts q p ts ts' (expect k d context) :=
  ⟨.expect hw hk, .expect hk⟩

theorem Shuts.ite {c : Prop} [Decidable c] {m m' : ParserM α} (hm : Shuts q p ts ts' m)
    (hm' : Shuts q p ts ts' m') : Shuts q p ts ts' (if c then m else m') := by
  split_ifs
  · exact hm
  · exact hm'

/-! ### Productions -/

/-- The calls that end with a brace. -/
structure ShutsRec (q p : ℕ) (ts ts' : List Token) (rec : Rec) : Prop where
  inner : WalkRec (fun _ m => Local q p ts ts' m) rec
  block : Shuts q p ts ts' (rec .block)
  ifExpr : Shuts q p ts ts' (rec .ifExpr)

/-- Wherever the window ends, there is an `else` in both streams or in neither. -/
theorem Closes.checkElse (hw : Window q p ts ts') (helse : NoElse p ts) (helse' : NoElse p ts') :
    Closes q p ts ts' (check .kw_else) where
  leads := precedes_grow.walk.check .kw_else
  run s c t hts hin _ hm _ hle := by
    cases hm
    show Except.ok ((s.over ts').stream.check .kw_else, _) = _
    have hno : ∀ (u : PState) tokens, u.stream.tokens = tokens → NoElse p tokens →
        u.stream.cursor = p → u.stream.check .kw_else = false := by
      intro u tokens htokens hno hcur
      unfold TokenStream.check TokenStream.peek
      rw [htokens, hcur, Nat.add_zero]
      cases htok : tokens[p]? with
      | none => rfl
      | some tok => exact decide_eq_false (hno tok htok)
    rcases Nat.lt_or_eq_of_le hle with hlt | heq
    · unfold TokenStream.check
      rw [hw.peek hts hlt hin.le]
    · rw [hno s ts hts helse heq, hno (s.over ts') ts' rfl helse' heq]

section Productions

variable (hw : Window q p ts ts') (hrec : ShutsRec q p ts ts' rec)
include hw hrec

theorem Shuts.parseBlockExpr : Shuts q p ts ts' (parseBlockExpr n rec) :=
  have h := local_walk hw
  .after (h.expect _ _ _) fun _ => .after (h.parseUntil n [] _ hrec.inner.stmt) fun _ =>
    .tail (.expect hw (by decide)) fun _ => .alloc _ _ _ _ _

theorem Shuts.parseUnsafeBlock : Shuts q p ts ts' (parseUnsafeBlock n rec) := by
  have h := local_walk hw
  refine .after (h.expect _ _ _) fun _ => .after (h.openUnsafe) fun _ =>
    .after (h.parseUntil n [] _ hrec.inner.stmt) fun _ =>
      .tail (.expect hw (by decide)) fun _ => .alloc _ _ _ _ _

theorem Shuts.parseWhileStmt : Shuts q p ts ts' (parseWhileStmt rec) :=
  have h := local_walk hw
  .after (h.expect _ _ _) fun _ => .after (h.parseHeaderExpr hrec.inner) fun _ =>
    .tail hrec.block fun _ => .bind (.previous hw) fun _ => .alloc _ _ _ _ _

theorem Shuts.parseForStmt : Shuts q p ts ts' (parseForStmt rec) :=
  have h := local_walk hw
  .after (h.expect _ _ _) fun _ => .after h.parseRegime fun _ => .after (h.expectName _ _) fun _ =>
    .after (h.expect _ _ _) fun _ => .after (h.parseHeaderExpr hrec.inner) fun _ =>
      .tail hrec.block fun _ => .bind (.spanOf _) fun _ => .alloc _ _ _ _ _

theorem Closes.parseElse (helse : NoElse p ts) (helse' : NoElse p ts') :
    Closes q p ts ts' (parseElse rec) := by
  have h := local_walk hw
  refine .bind (.checkElse hw helse helse') fun _ => .ite (Shuts.toCloses ?_) (.pure _)
  exact .after h.advance fun _ => .after (h.check _) fun _ =>
    .ite (.tail hrec.ifExpr fun _ => .pure _) (.tail hrec.block fun _ => .pure _)

theorem Shuts.parseIfExpr (helse : NoElse p ts) (helse' : NoElse p ts') :
    Shuts q p ts ts' (parseIfExpr rec) :=
  have h := local_walk hw
  .after (h.expect _ _ _) fun _ => .after (h.parseHeaderExpr hrec.inner) fun _ =>
    .tail hrec.block fun _ => .bind (.parseElse hw hrec helse helse') fun _ =>
      .bind (.previous hw) fun _ => .alloc _ _ _ _ _

theorem Shuts.parseRetStmt : Shuts q p ts ts' (parseRetStmt rec) :=
  have h := local_walk hw
  .after (h.expect _ _ _) fun _ => .after (hrec.inner.expr _) fun _ =>
    .tail (.expect hw (by decide)) fun _ => .alloc _ _ _ _ _

omit hrec in
theorem Shuts.parseJumpStmt (kind : NodeKind) : Shuts q p ts ts' (parseJumpStmt kind) :=
  .after (local_walk hw).advance fun _ => .tail (.expect hw (by decide)) fun _ => .alloc _ _ _ _ _

end Productions

/-- Blocks and `if` end with a brace. -/
theorem run_shuts (hw : Window q p ts ts') (helse : NoElse p ts) (helse' : NoElse p ts') (n : ℕ) :
    ShutsRec q p ts ts' (run n) := by
  have hfuel : Shuts q p ts ts' (throw .fuel : ParserM NodeIndex) :=
    ⟨⟨fun _ _ _ hm => (nomatch hm), fun _ _ _ _ _ _ hm => (nomatch hm)⟩,
      fun _ _ _ hm => (nomatch hm)⟩
  induction n with
  | zero => exact ⟨(local_walk hw).run 0, hfuel, hfuel⟩
  | succ n ih =>
    exact ⟨(local_walk hw).run (n + 1), .parseBlockExpr hw ih,
      .parseIfExpr hw ih helse helse'⟩

/-! ### Statements -/

/-- A call that reports nothing gives no error node. -/
theorem PState.Valid.not_error {call : Call} {x : NodeIndex} (hs : s.Valid)
    (hc : Starts (s.stream.peek 0) call) (hn : s.depth ≤ n)
    (hrun : Parser.run n call s = .ok (x, t)) (herr : t.errors = s.errors) :
    ∃ d, t.pool.get? x = some d ∧ d.kind ≠ .Error := by
  -- The same run with nothing built and nothing reported before it.
  let s₀ : PState := { s with pool := .new, errors := [] }
  have hs₀ : s₀.Valid := ⟨hs.inside, [sentinel], [], poolOf_sentinel.symm, Grown.new⟩
  obtain ⟨rs, -, hp, -⟩ := hs.tree
  have hagrees : s.Agrees s₀ := ⟨rfl, rfl, rfl, rfl⟩
  obtain ⟨y, t₀, hrun₀, hxy, halike⟩ := run_recursive (hagrees.twin rs [sentinel]) n call _ s s₀
    (hagrees.alike hp poolOf_sentinel.symm) x t hrun
  obtain ⟨_, _, hh⟩ := (hs₀.held hc hn).of_eq hrun₀
  obtain ⟨all, hall, hgrown⟩ := hh.tree
  obtain ⟨k, r, rfl, hk, hr⟩ := hgrown.record_of_held
    (List.mem_append_right _ (List.mem_singleton_self _)) (by cases call <;> rfl)
  obtain ⟨es, es', hes, hes', hids, -⟩ := halike.errors
  have hes : t.errors = s.errors ++ es := hes
  have hnil : es = [] := by simpa [herr] using hes
  have hnil' : es' = [] := List.length_eq_zero_iff.mp (by rw [← hids.length_eq, hnil]; rfl)
  have hkind := (hgrown.clean (by rw [hes', hnil']; rfl) k r hk hr).1
  obtain ⟨new, new', hnew, hnew', hrecords⟩ := halike.pools
  rcases hxy with ⟨-, hnull⟩ | ⟨k', rfl, hk'⟩
  · cases hnull
  · have hget := get?_of_record hr
    rw [← hall, hnew', Option.some.inj hk', poolOf_append_get?] at hget
    obtain ⟨r', hr', hnode⟩ := Option.map_eq_some_iff.mp hget
    obtain ⟨r₁, hr₁, halike₁⟩ := forall₂_getElem? hrecords.flip hr'
    refine ⟨_, by rw [hnew, poolOf_append_get?, hr₁]; rfl, ?_⟩
    have hsame : r'.kind = r.kind := congrArg NodeData.kind hnode
    show r₁.kind ≠ .Error
    rw [← halike₁.kind, hsame]
    exact hkind

theorem Moves.requireSemi {atEnd : Bool} {noteText : String} :
    Moves (requireSemi atEnd context noteText) := by
  intro s _ t h herr
  obtain ⟨-, rfl⟩ := requireSemi_silent h herr
  exact Nat.lt_succ_self _

theorem Shuts.requireSemi (hw : Window q p ts ts') {atEnd : Bool} {noteText : String} :
    Shuts q p ts ts' (requireSemi atEnd context noteText) where
  leads := precedes_grow.walk.requireSemi atEnd context noteText
  moves := .requireSemi
  run s _ t hts hin _ hm herr hle := by
    obtain ⟨hpeek, rfl⟩ := requireSemi_silent hm herr
    have hpeek' : (s.over ts').stream.peek 0 = .semi := by
      rw [hw.peek hts (show s.stream.cursor < p from hle) hin.le, hpeek]
    have hhit : Yields (Parser.requireSemi atEnd context noteText) (fun _ u => u = (s.over ts').moved)
        (s.over ts') := by
      unfold Parser.requireSemi
      refine (consume_hit hpeek' (by decide)).bind ?_
      rintro _ _ ⟨rfl, rfl⟩
      exact Yields.pure rfl
    obtain ⟨_, _, h, rfl⟩ := hhit
    exact h

/-- A node that is no error node. -/
def PState.Sound (s : PState) (x : NodeIndex) : Prop :=
  ∃ d, s.pool.get? x = some d ∧ d.kind ≠ .Error

theorem PState.Sound.later {x : NodeIndex} (h : s.Sound x) (hkeeps : s.Keeps t) : t.Sound x := by
  obtain ⟨d, hd, hkind⟩ := h
  exact ⟨d, (hkeeps x d hd).1, hkind⟩

theorem kindOf_sound {x : NodeIndex} {kind : NodeKind} (h : s.Sound x)
    (hk : kindOf x s = .ok (kind, t)) : kind ≠ .Error ∧ t = s := by
  obtain ⟨d, hd, hkind⟩ := h
  unfold kindOf at hk
  rw [hd] at hk
  cases hk
  exact ⟨hkind, rfl⟩

theorem parseExprStmt_closes {a : NodeIndex} (hw : Window q p ts ts') (hs : s.Valid)
    (hn : s.depth ≤ n) (hts : s.stream.tokens = ts) (hin : s.Entered q) (hqp : q < p)
    (hrun : parseExprStmt (run n) s = .ok (a, t)) (herr : t.errors = s.errors)
    (hle : t.stream.cursor ≤ p) : parseExprStmt (run n) (s.over ts') = .ok (a, t.over ts') := by
  have h := local_walk hw
  obtain ⟨x, u, hx, hrest⟩ := of_bind_ok hrun
  obtain ⟨kind, u', hk, hthen⟩ := of_bind_ok hrest
  have hsu := (((local_walk hw).run n).expr 0).leads s x u hx
  have huu := precedes_grow.walk.kindOf x u kind u' hk
  have hshuts : Shuts q p ts ts' (Parser.requireSemi true "after expression"
      "in Eter, expression statements must end with `;`" >>= fun _ => Pure.pure x) :=
    .tail (.requireSemi hw) fun _ => .pure _
  have hut : u'.Precedes t := Walk.ite (P := fun _ m => Leads PState.Precedes m)
    (precedes_grow.walk.bind precedes_grow.walk.synchronize fun _ => precedes_grow.walk.pure _)
    hshuts.leads u' a t hthen
  obtain ⟨herr', -⟩ := hsu.silent (huu.trans hut) herr
  have hsound : u.Sound x := @PState.Valid.not_error _ _ _ (.expr 0) _ hs le_rfl hn hx herr'
  obtain ⟨hkind, rfl⟩ := kindOf_sound hsound hk
  rw [if_neg hkind] at hthen
  obtain ⟨-, herr'⟩ := hsu.silent hut herr
  have hx' := (h.run n).expr 0 |>.run s x u' hts hin hx
    ((hshuts.moves u' a t hthen herr').trans_le hle)
  have hrest' := hshuts.run u' a t (hsu.tokens.trans hts) (hin.mono hsu.forward) hqp hthen herr' hle
  show (run n (.expr 0) (s.over ts') >>= fun r => _) = _
  rw [hx']
  show (kindOf x (u'.over ts') >>= fun r => _) = _
  rw [show kindOf x (u'.over ts') = .ok (kind, u'.over ts') from
    (local_walk hw).kindOf x |>.run u' kind u' (hsu.tokens.trans hts) (hin.mono hsu.forward) hk
      ((hshuts.moves u' a t hthen herr').trans_le hle)]
  show (if kind = .Error then _ else _ : ParserM NodeIndex) (u'.over ts') = _
  rw [if_neg hkind]
  exact hrest'

/-! ### `let` -/

/-- Only the stream and the names have changed. -/
structure PState.Passes (s t : PState) : Prop where
  valid : t.Valid
  tokens : t.stream.tokens = s.stream.tokens

theorem PState.Passes.trans (h : s.Passes t) (h' : t.Passes u) : s.Passes u :=
  ⟨h'.valid, h'.tokens.trans h.tokens⟩

theorem PState.Valid.passes_moved (hs : s.Valid) (hk : s.stream.peek 0 = k) (hne : k ≠ .eof) :
    s.Passes s.moved :=
  ⟨hs.moved hk hne, rfl⟩

theorem parseRegime_passes {r : Regime} (hs : s.Valid) (h : parseRegime s = .ok (r, t)) :
    s.Passes t := by
  have hyields : Yields parseRegime (fun _ u => u = s ∨ (u = s.moved ∧ s.stream.peek 0 ≠ .eof)) s := by
    unfold parseRegime
    refine Yields.read rfl ?_
    split
    · rename_i hk
      refine (advance_of_peek (by rw [hk]; decide)).bind ?_
      rintro _ _ rfl
      exact Yields.pure (Or.inr ⟨rfl, by rw [hk]; decide⟩)
    · rename_i hk
      refine (advance_of_peek (by rw [hk]; decide)).bind ?_
      rintro _ _ rfl
      exact Yields.pure (Or.inr ⟨rfl, by rw [hk]; decide⟩)
    · rename_i hk
      refine (advance_of_peek (by rw [hk]; decide)).bind ?_
      rintro _ _ rfl
      exact Yields.pure (Or.inr ⟨rfl, by rw [hk]; decide⟩)
    · exact Yields.pure (Or.inl rfl)
  rcases hyields.of_eq h with rfl | ⟨rfl, hne⟩
  · exact ⟨hs, rfl⟩
  · exact hs.passes_moved rfl hne

theorem expectName_passes {construct : String} {name : InternedStr} (hs : s.Valid) (hk : k ≠ .eof)
    (h : expectName k construct s = .ok (name, t)) (herr : t.errors = s.errors) : s.Passes t := by
  by_cases hpeek : s.stream.peek 0 = k
  · have hhit : Yields (expectName k construct)
        (fun _ u => ∃ interner, u = { s.moved with interner := interner }) s := by
      unfold expectName
      refine (consume_hit hpeek hk).bind ?_
      rintro _ _ ⟨rfl, rfl⟩
      exact ⟨_, _, rfl, _, rfl⟩
    obtain ⟨interner, rfl⟩ := hhit.of_eq h
    have hmoved := hs.moved hpeek hk
    exact ⟨⟨hmoved.inside, hmoved.tree⟩, rfl⟩
  · have hmiss : Yields (expectName k construct) (fun _ u => u.errors ≠ s.errors) s := by
      unfold expectName
      refine (consume_miss hpeek).bind ?_
      rintro _ _ ⟨rfl, rfl⟩
      exact ⟨_, _, rfl, by simp⟩
    exact (hmiss.of_eq h herr).elim

/-- An optional child without a report is no error node. -/
theorem optional_sound {call : Call} {cs : List NodeIndex} (hs : s.Valid) (hn : s.depth ≤ n)
    (hk : k ≠ .eof) (hc : ∀ k', Starts k' call)
    (h : (do if ← consume k then return [← run n call] else pure [] : ParserM (List NodeIndex)) s =
      .ok (cs, t)) (herr : t.errors = s.errors) : s.Passes t ∧ ∀ x ∈ cs, t.Sound x := by
  obtain ⟨c, u, hcons, hthen⟩ := of_bind_ok h
  by_cases hpeek : s.stream.peek 0 = k
  · obtain ⟨rfl, rfl⟩ := (consume_hit hpeek hk).of_eq hcons
    obtain ⟨x, v, hx, hpure⟩ := of_bind_ok hthen
    cases hpure
    have hpass := hs.passes_moved hpeek hk
    have hdepth : s.moved.depth ≤ n := hn
    obtain ⟨hext, -⟩ := (hpass.valid.runs (hc _) hdepth).of_eq hx
    refine ⟨⟨hext.valid, hext.tokens⟩, fun y hy => ?_⟩
    rw [List.mem_singleton.mp hy]
    exact hpass.valid.not_error (hc _) hdepth hx herr
  · obtain ⟨hmiss, rfl⟩ := (consume_miss hpeek).of_eq hcons
    rw [hmiss, if_neg Bool.false_ne_true] at hthen
    cases hthen
    exact ⟨⟨hs, rfl⟩, by simp⟩

theorem closeLet_sound {cs : List NodeIndex} (h : ∀ x ∈ cs, s.Sound x) :
    closeLet cs s = requireSemi false "in let statement"
      "all statements must end with `;` in Eter" s := by
  have hends : endsInError cs s = .ok (false, s) := by
    unfold endsInError
    cases hlast : cs.getLast? with
    | none => rfl
    | some x =>
      obtain ⟨d, hd, hkind⟩ := h x (List.mem_of_getLast? hlast)
      have hkindOf : kindOf x s = .ok (d.kind, s) := by
        unfold kindOf
        rw [hd]
      show (kindOf x s >>= fun r => _) = _
      rw [hkindOf]
      show Except.ok (decide (d.kind = .Error), s) = _
      rw [decide_eq_false hkind]
  show (endsInError cs s >>= fun r => _) = _
  rw [hends]
  rfl

theorem parseLetStmt_closes {a : NodeIndex} (hw : Window q p ts ts') (hs : s.Valid)
    (hn : s.depth ≤ n) (hts : s.stream.tokens = ts) (hin : s.Entered q) (hqp : q < p)
    (hrun : parseLetStmt (run n) s = .ok (a, t)) (herr : t.errors = s.errors)
    (hle : t.stream.cursor ≤ p) : parseLetStmt (run n) (s.over ts') = .ok (a, t.over ts') := by
  have hl := local_walk hw
  have hp := precedes_grow.walk
  obtain ⟨tok, s₁, h₁, hrest₁⟩ := of_bind_ok hrun
  obtain ⟨regime, s₂, h₂, hrest₂⟩ := of_bind_ok hrest₁
  obtain ⟨name, s₃, h₃, hrest₃⟩ := of_bind_ok hrest₂
  obtain ⟨type, s₄, h₄, hrest₄⟩ := of_bind_ok hrest₃
  obtain ⟨init, s₅, h₅, hrest₅⟩ := of_bind_ok hrest₄
  obtain ⟨_, s₆, h₆, hrest₆⟩ := of_bind_ok hrest₅
  have hp₁ := hp.expect _ _ _ s tok s₁ h₁
  have hp₂ := hp.parseRegime s₁ regime s₂ h₂
  have hp₃ := hp.expectName _ _ s₂ name s₃ h₃
  have hp₄ := hp.optional .colon (hp.run n).type s₃ type s₄ h₄
  have hp₅ := hp.optional .eq ((hp.run n).expr 0) s₄ init s₅ h₅
  have hp₆ := hp.closeLet _ s₅ () s₆ h₆
  have hp₇ := (hp.bind hp.previous fun _ => hp.alloc _ _ _ _ _) s₆ a t hrest₆
  have hq₅ := hp₆.trans hp₇
  have hq₄ := hp₅.trans hq₅
  have hq₃ := hp₄.trans hq₄
  have hq₂ := hp₃.trans hq₃
  obtain ⟨he₁, herr₁⟩ := hp₁.silent (hp₂.trans hq₂) herr
  obtain ⟨-, herr₂⟩ := hp₂.silent hq₂ herr₁
  obtain ⟨he₃, herr₃⟩ := hp₃.silent hq₃ herr₂
  obtain ⟨he₄, herr₄⟩ := hp₄.silent hq₄ herr₃
  obtain ⟨he₅, herr₅⟩ := hp₅.silent hq₅ herr₄
  -- Neither the type nor the initialiser is an error node, so the semicolon is required.
  obtain ⟨hpeek, -, rfl⟩ := expect_silent h₁ (by decide) he₁
  have hv₁ := hs.passes_moved hpeek (by decide)
  have hv₂ := hv₁.trans (parseRegime_passes hv₁.valid h₂)
  have hv₃ := hv₂.trans (expectName_passes hv₂.valid (by decide) h₃ he₃)
  have hdepth₃ : s₃.depth ≤ n := by rwa [PState.depth, hv₃.tokens]
  have htypes : ∀ k, Starts k .type := fun _ => trivial
  have hexprs : ∀ k, Starts k (.expr 0) := fun _ => le_rfl
  obtain ⟨hpass₄, htype⟩ := optional_sound hv₃.valid hdepth₃ (by decide) htypes h₄ he₄
  have hv₄ := hv₃.trans hpass₄
  have hdepth₄ : s₄.depth ≤ n := by rwa [PState.depth, hv₄.tokens]
  obtain ⟨hpass₅, hinit⟩ := optional_sound hv₄.valid hdepth₄ (by decide) hexprs h₅ he₅
  have hchildren : ∀ x ∈ type ++ init, s₅.Sound x := by
    intro x hx
    rcases List.mem_append.mp hx with hx | hx
    · exact (htype x hx).later (hp₅.keeps hv₄.valid)
    · exact hinit x hx
  have hclose := h₆
  rw [closeLet_sound hchildren] at hclose
  obtain ⟨he₆, herr₆⟩ := hp₆.silent hp₇ herr₅
  have hlt₅ : s₅.stream.cursor < p :=
    (Moves.requireSemi s₅ () s₆ hclose he₆).trans_le (hp₇.forward.trans hle)
  -- Each step is the same over the other tokens.
  have hin₁ := hin.mono hp₁.forward
  have hin₂ := hin₁.mono hp₂.forward
  have hin₃ := hin₂.mono hp₃.forward
  have hin₄ := hin₃.mono hp₄.forward
  have hin₅ := hin₄.mono hp₅.forward
  have hlt₄ := hp₅.forward.trans_lt hlt₅
  have hlt₃ := hp₄.forward.trans_lt hlt₄
  have hlt₂ := hp₃.forward.trans_lt hlt₃
  have hover₁ := (hl.expect _ _ _).run s _ _ hts hin h₁ (hp₂.forward.trans_lt hlt₂)
  have hover₂ := hl.parseRegime.run _ _ _ (hp₁.tokens.trans hts) hin₁ h₂ hlt₂
  have hover₃ := (hl.expectName _ _).run _ _ _ (hv₂.tokens.trans hts) hin₂ h₃ hlt₃
  have hover₄ := (hl.optional .colon (hl.run n).type).run _ _ _ (hv₃.tokens.trans hts) hin₃ h₄ hlt₄
  have hover₅ := (hl.optional .eq ((hl.run n).expr 0)).run _ _ _ (hv₄.tokens.trans hts) hin₄ h₅ hlt₅
  have htokens₅ := (hv₄.trans hpass₅).tokens.trans hts
  have hover₆ := (Shuts.requireSemi hw).run s₅ () s₆ htokens₅ hin₅ hqp hclose he₆
    (hp₇.forward.trans hle)
  have hsound' : ∀ x ∈ type ++ init, (s₅.over ts').Sound x := hchildren
  rw [← closeLet_sound hsound'] at hover₆
  have hover₇ := (Closes.bind (.previous hw) fun _ => .alloc _ _ _ _ _).run s₆ a t
    (hp₆.tokens.trans htokens₅) (hin₅.mono hp₆.forward) hqp hrest₆ herr₆ hle
  show (expect _ _ _ (s.over ts') >>= fun r => _) = _
  rw [hover₁]
  show (parseRegime (s.moved.over ts') >>= fun r => _) = _
  rw [hover₂]
  show (expectName _ _ (s₂.over ts') >>= fun r => _) = _
  rw [hover₃]
  show (parseLetType (run n) (s₃.over ts') >>= fun r => _) = _
  rw [show parseLetType (run n) (s₃.over ts') = _ from hover₄]
  show (parseLetInit (run n) (s₄.over ts') >>= fun r => _) = _
  rw [show parseLetInit (run n) (s₄.over ts') = _ from hover₅]
  show (closeLet (type ++ init) (s₅.over ts') >>= fun r => _) = _
  rw [hover₆]
  exact hover₇

/-! ### All statements -/

/-- A statement without a report does not depend on the tokens behind it. -/
theorem stmt_closes {a : NodeIndex} (hw : Window q p ts ts') (helse : NoElse p ts)
    (helse' : NoElse p ts') (hs : s.Valid) (hn : s.depth ≤ n) (hts : s.stream.tokens = ts)
    (hin : s.Entered q) (hlt : s.stream.cursor < p) (hrun : Parser.run (n + 1) .stmt s = .ok (a, t))
    (herr : t.errors = s.errors) (hle : t.stream.cursor ≤ p) :
    Parser.run (n + 1) .stmt (s.over ts') = .ok (a, t.over ts') := by
  have hrec := run_shuts hw helse helse' n
  have hqp : q < p := hin.le.trans_lt hlt
  let Same (m : ParserM NodeIndex) : Prop := m s = .ok (a, t) → m (s.over ts') = .ok (a, t.over ts')
  have hshuts : ∀ m, Shuts q p ts ts' m → Same m :=
    fun m hm hrun => hm.run s a t hts hin hqp hrun herr hle
  obtain ⟨f, hf, hsame⟩ : ∃ f, parseStmt n (run n) = Parser.peekToken >>= f ∧ ∀ tok, Same (f tok) := by
    refine ⟨_, rfl, fun tok => ?_⟩
    split_ifs
    · exact fun hrun => parseExprStmt_closes hw hs hn hts hin hqp hrun herr hle
    · split
      · exact fun hrun => parseLetStmt_closes hw hs hn hts hin hqp hrun herr hle
      · exact hshuts _ hrec.ifExpr
      · exact hshuts _ (.parseForStmt hw hrec)
      · exact hshuts _ (.parseWhileStmt hw hrec)
      · exact hshuts _ hrec.block
      · exact hshuts _ (.parseRetStmt hw hrec)
      · exact hshuts _ (.parseJumpStmt hw _)
      · exact hshuts _ (.parseJumpStmt hw _)
      · exact hshuts _ (.parseUnsafeBlock hw hrec)
      · intro hrun
        have hgrow := Reports.parseBadStmt _ s a t hrun
        rw [herr] at hgrow
        exact absurd hgrow (lt_irrefl _)
  change parseStmt n (run n) s = _ at hrun
  show parseStmt n (run n) (s.over ts') = _
  rw [hf] at hrun ⊢
  show f ((s.over ts').stream.peekToken 0) (s.over ts') = _
  rw [hw.peekToken hts hlt hin.le]
  exact hsame _ hrun

end Eter.Parser
