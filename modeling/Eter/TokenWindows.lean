import Eter.SyntaxTrees

/-!
# Windows of tokens

Two streams have the same tokens in a window. What starts and ends inside the window is parsed from
the one stream as it is from the other.
-/

namespace Eter.Parser
open Stateful

/-- The state over other tokens. -/
def PState.over (s : PState) (tokens : List Token) : PState :=
  { s with stream := { s.stream with tokens := tokens } }

/-- The tokens from `q` to before `p` are the same. -/
structure Window (q p : ℕ) (ts ts' : List Token) : Prop where
  left : p ≤ ts.length
  right : p ≤ ts'.length
  same : ∀ i, q ≤ i → i < p → ts'[i]? = ts[i]?

/-- The token at the cursor and the one before it are in the window or behind it. -/
def PState.Entered (s : PState) (q : ℕ) : Prop := q = 0 ∨ q < s.stream.cursor

/-- A computation that ends before token `p` does not depend on which of the two streams it reads. -/
structure Local (q p : ℕ) (ts ts' : List Token) {α : Type} (m : ParserM α) : Prop where
  leads : Leads PState.Precedes m
  run : ∀ s a t, s.stream.tokens = ts → s.Entered q → m s = .ok (a, t) → t.stream.cursor < p →
    m (s.over ts') = .ok (a, t.over ts')

variable {q p : ℕ} {ts ts' : List Token} {s t : PState} {α β : Type} {m : ParserM α}
  {f : α → ParserM β}

theorem PState.Entered.mono (h : s.Entered q) (hle : s.stream.cursor ≤ t.stream.cursor) :
    t.Entered q :=
  h.imp id fun h => h.trans_le hle

theorem PState.Entered.le (h : s.Entered q) : q ≤ s.stream.cursor := by
  rcases h with rfl | h
  · exact Nat.zero_le _
  · exact h.le

/-! ### Reading in the window -/

section Reading

variable (hw : Window q p ts ts') (hts : s.stream.tokens = ts) (hp : s.stream.cursor < p)
include hw hts hp

theorem Window.token (hq : q ≤ s.stream.cursor) : ∃ tok, s.stream.tokens[s.stream.cursor]? = some tok ∧
    ts'[s.stream.cursor]? = some tok := by
  have hlt : s.stream.cursor < s.stream.tokens.length := by
    rw [hts]
    exact hp.trans_le hw.left
  refine ⟨_, List.getElem?_eq_getElem hlt, ?_⟩
  rw [hw.same _ hq hp, ← hts, List.getElem?_eq_getElem hlt]

theorem Window.peek (hq : q ≤ s.stream.cursor) : (s.over ts').stream.peek 0 = s.stream.peek 0 := by
  obtain ⟨tok, h, h'⟩ := hw.token hts hp hq
  unfold TokenStream.peek PState.over
  simp [h, h']

theorem Window.peekToken (hq : q ≤ s.stream.cursor) :
    (s.over ts').stream.peekToken 0 = s.stream.peekToken 0 := by
  obtain ⟨tok, h, h'⟩ := hw.token hts hp hq
  unfold TokenStream.peekToken PState.over
  simp [h, h']

theorem Window.advance (hq : q ≤ s.stream.cursor) :
    (s.over ts').stream.advance = (s.stream.advance.1, (s.moved.over ts').stream) ∧
      s.stream.advance.2 = s.moved.stream := by
  obtain ⟨tok, h, h'⟩ := hw.token hts hp hq
  unfold TokenStream.advance PState.over PState.moved
  simp [h, h']

end Reading

/-- The previous token is in the window, also where the window ends. -/
theorem Window.previous_le (hw : Window q p ts ts') (hts : s.stream.tokens = ts)
    (hle : s.stream.cursor ≤ p) (hqp : q < p) (hin : s.Entered q) :
    (s.over ts').stream.previous = s.stream.previous := by
  have hlen : p ≤ s.stream.tokens.length := hts ▸ hw.left
  unfold TokenStream.previous PState.over
  dsimp only
  cases hc : s.stream.cursor with
  | zero =>
    have hq : q = 0 := hin.resolve_right (by omega)
    dsimp only
    rw [List.head?_eq_getElem?, List.head?_eq_getElem?, hw.same 0 (by omega) (by omega), hts]
  | succ c =>
    have hq : q ≤ c := by
      rcases hin with h | h <;> omega
    have hsome : s.stream.tokens[c]? = some s.stream.tokens[c] := List.getElem?_eq_getElem (by omega)
    dsimp only
    rw [hw.same c hq (by omega), ← hts, hsome]

/-! ### Steps -/

theorem Local.pure (a : α) : Local q p ts ts' (pure a : ParserM α) where
  leads := precedes_grow.pure a
  run s b t _ _ hm _ := by
    cases hm
    rfl

theorem Local.bind (hm : Local q p ts ts' m) (hf : ∀ a, Local q p ts ts' (f a)) :
    Local q p ts ts' (m >>= f) where
  leads := precedes_grow.bind hm.leads fun a => (hf a).leads
  run s b u hts hin hb hlt := by
    obtain ⟨a, t, ha, hb⟩ := of_bind_ok hb
    have hst := hm.leads s a t ha
    have htu := (hf a).leads t b u hb
    have ha' := hm.run s a t hts hin ha (htu.forward.trans_lt hlt)
    have hb' := (hf a).run t b u (hst.tokens.trans hts) (hin.mono hst.forward) hb hlt
    show (m (s.over ts') >>= fun r => f r.1 r.2) = _
    rw [ha']
    exact hb'

/-- Reading something that is the same over both streams. -/
theorem Local.of_reads {g : PState → α}
    (hg : ∀ s, s.stream.tokens = ts → s.Entered q → s.stream.cursor < p → g (s.over ts') = g s) :
    Local q p ts ts' (fun s => .ok (g s, s)) where
  leads := precedes_grow.of_reads fun s a t hm => by cases hm; rfl
  run s a t hts hin hm hlt := by
    cases hm
    rw [hg s hts hin hlt]

theorem Local.peek (hw : Window q p ts ts') : Local q p ts ts' peek :=
  .of_reads fun _ hts hin hlt => hw.peek hts hlt hin.le

theorem Local.check (hw : Window q p ts ts') (k : Token.Kind) : Local q p ts ts' (check k) :=
  .of_reads fun _ hts hin hlt => by
    unfold TokenStream.check
    rw [hw.peek hts hlt hin.le]

theorem Local.previous (hw : Window q p ts ts') : Local q p ts ts' previous :=
  .of_reads fun _ hts hin hlt => hw.previous_le hts hlt.le (hin.le.trans_lt hlt) hin

/-- Whatever the step does to the rest of the state, it ends where it began. -/
theorem Local.of_stays {g : PState → α} {h : PState → PState}
    (hleads : ∀ s : PState, s.Precedes (h s)) (hg : ∀ s, g (s.over ts') = g s)
    (hh : ∀ s, h (s.over ts') = (h s).over ts') : Local q p ts ts' (fun s => .ok (g s, h s)) where
  leads s a t hm := by
    cases hm
    exact hleads s
  run s a t _ _ hm _ := by
    cases hm
    rw [hg, hh]

theorem Local.advance (hw : Window q p ts ts') : Local q p ts ts' advance where
  leads := precedes_grow.walk.advance
  run s a t hts hin hm hlt := by
    have hle := (precedes_grow.walk.advance s a t hm).forward
    cases hm
    obtain ⟨hover, hmoved⟩ := hw.advance hts (hle.trans_lt hlt) hin.le
    show Except.ok ((s.over ts').stream.advance.1, _) = _
    rw [hover, hmoved]
    rfl

theorem Local.ite {c : Prop} [Decidable c] {m m' : ParserM α} (hm : Local q p ts ts' m)
    (hm' : Local q p ts ts' m') : Local q p ts ts' (if c then m else m') := by
  split_ifs
  · exact hm
  · exact hm'

theorem Local.consume (hw : Window q p ts ts') (k : Token.Kind) : Local q p ts ts' (consume k) := by
  have heq : Parser.consume k = Parser.check k >>= fun c =>
      if c then Parser.advance >>= fun _ => Pure.pure true else Pure.pure false := by
    funext s
    show _ = (if s.stream.check k then Parser.advance >>= fun _ => Pure.pure true
      else Pure.pure false : ParserM Bool) s
    unfold Parser.consume TokenStream.consume
    split_ifs <;> rfl
  rw [heq]
  exact (Local.check hw k).bind fun _ => .ite ((Local.advance hw).bind fun _ => .pure _) (.pure _)

theorem Local.countStray (k : Token.Kind) : Local q p ts ts' (countStray k) :=
  .of_stays (fun s => precedes_grow.countStray s _) (fun _ => rfl) fun _ => rfl

theorem Local.skip (hw : Window q p ts ts') : Local q p ts ts' skip :=
  (Local.peek hw).bind fun k => (Local.countStray k).bind fun _ =>
    (Local.advance hw).bind fun _ => .pure ()

/-! ### Loops over tokens -/

/-- The state behind a token that was dropped. -/
def PState.skipped (s : PState) : PState :=
  { s with
    stream := s.stream.advance.2
    strays := if isBrace (s.stream.peek 0) then s.strays + 1 else s.strays }

theorem skipped_cursor (h : s.stream.cursor < s.stream.tokens.length) :
    s.skipped.stream.cursor = s.stream.cursor + 1 := by
  unfold PState.skipped TokenStream.advance
  simp [List.getElem?_eq_getElem h]

/-- A loop that drops tokens until it stops, with a turn for each token. -/
structure Dropping (loop : ℕ → ParserM Unit) (stop : PState → Bool) : Prop where
  zero : loop 0 = throw .fuel
  succ : ∀ n s, loop (n + 1) s = if stop s then .ok ((), s) else loop n s.skipped

theorem dropping_skipTokens (stop : Token.Kind → Bool) :
    Dropping (skipTokens stop) fun s => stop (s.stream.peek 0) || s.stream.atEof where
  zero := rfl
  succ n s := by
    show (if (stop (s.stream.peek 0) || s.stream.atEof) = true then Pure.pure ()
      else Parser.skip >>= fun _ => skipTokens stop n : ParserM Unit) s = _
    split_ifs <;> rfl

theorem dropping_syncTokens : Dropping syncTokens fun s =>
    s.stream.atEof || decide (s.stream.previous.tokenKind = .semi) || isSyncStop (s.stream.peek 0)
    where
  zero := rfl
  succ n s := by
    show (if s.stream.atEof = true then Pure.pure ()
      else Parser.previous >>= fun tok => if tok.tokenKind = .semi then Pure.pure ()
        else Parser.peek >>= fun k => if isSyncStop k = true then Pure.pure ()
          else Parser.skip >>= fun _ => syncTokens n : ParserM Unit) s = _
    cases heof : s.stream.atEof with
    | true => rfl
    | false =>
      rw [if_neg Bool.false_ne_true]
      show (if s.stream.previous.tokenKind = .semi then Pure.pure ()
        else Parser.peek >>= fun k => if isSyncStop k = true then Pure.pure ()
          else Parser.skip >>= fun _ => syncTokens n : ParserM Unit) s = _
      by_cases hsemi : s.stream.previous.tokenKind = .semi
      · rw [if_pos hsemi]
        simp [hsemi]
        rfl
      · rw [if_neg hsemi]
        show (if isSyncStop (s.stream.peek 0) = true then Pure.pure ()
          else Parser.skip >>= fun _ => syncTokens n : ParserM Unit) s = _
        cases hstop : isSyncStop (s.stream.peek 0) with
        | true => simp [hsemi]; rfl
        | false => simp [hsemi]; rfl

/-- Both loops drop the same tokens if they have turns enough. -/
theorem Dropping.local {loop : ℕ → ParserM Unit} {stop : PState → Bool} (hloop : Dropping loop stop)
    (hw : Window q p ts ts')
    (hstop : ∀ s, s.stream.tokens = ts → s.Entered q → s.stream.cursor < p →
      stop (s.over ts') = stop s) :
    Local q p ts ts' (fun s => loop (s.stream.tokens.length - s.stream.cursor + 1) s) := by
  have hleads : ∀ n s t, loop n s = .ok ((), t) → s.Precedes t := by
    intro n
    induction n with
    | zero =>
      intro s t hm
      rw [hloop.zero] at hm
      cases hm
    | succ n ih =>
      intro s t hm
      rw [hloop.succ] at hm
      split_ifs at hm
      · cases hm
        exact .refl s
      · exact (precedes_grow.skip s () s.skipped rfl).trans (ih _ _ hm)
  have hrun : ∀ n n' s t, s.stream.tokens = ts → s.Entered q → loop n s = .ok ((), t) →
      t.stream.cursor < p → p ≤ s.stream.cursor + n' → loop n' (s.over ts') = .ok ((), t.over ts') := by
    intro n
    induction n with
    | zero =>
      intro n' s t _ _ hm
      rw [hloop.zero] at hm
      cases hm
    | succ n ih =>
      intro n' s t hts hin hm hlt hn'
      have hcur := (hleads _ s t hm).forward
      obtain ⟨n', rfl⟩ : ∃ k, n' = k + 1 := ⟨n' - 1, by omega⟩
      rw [hloop.succ] at hm ⊢
      rw [hstop s hts hin (hcur.trans_lt hlt)]
      split_ifs at hm ⊢
      · cases hm
        rfl
      · have hskip := precedes_grow.skip s () s.skipped rfl
        have hlt' : s.stream.cursor < s.stream.tokens.length := by
          have := hw.left
          rw [hts]
          omega
        have hcursor := skipped_cursor hlt'
        have hover := (Local.skip hw).run s () s.skipped hts hin rfl
          ((hleads _ _ _ hm).forward.trans_lt hlt)
        have hover : (s.over ts').skipped = s.skipped.over ts' :=
          congrArg Prod.snd (Except.ok.inj hover)
        rw [hover]
        exact ih n' s.skipped t (hskip.tokens.trans hts) (hin.mono hskip.forward) hm hlt (by omega)
  refine ⟨fun s _ t hm => hleads _ s t hm, fun s _ t hts hin hm hlt => ?_⟩
  refine hrun _ _ s t hts hin hm hlt ?_
  have hright := hw.right
  show p ≤ s.stream.cursor + (ts'.length - s.stream.cursor + 1)
  omega

/-! ### Productions -/

theorem Local.kindOf (i : NodeIndex) : Local q p ts ts' (kindOf i) where
  leads := precedes_grow.walk.kindOf i
  run s a t _ _ hm _ := by
    unfold Parser.kindOf at hm ⊢
    dsimp only [PState.over] at hm ⊢
    split at hm <;> cases hm
    rfl

theorem Local.spanOf (i : NodeIndex) : Local q p ts ts' (spanOf i) where
  leads := precedes_grow.walk.spanOf i
  run s a t _ _ hm _ := by
    unfold Parser.spanOf at hm ⊢
    dsimp only [PState.over] at hm ⊢
    split at hm <;> cases hm
    rfl

theorem Local.withStructLit (lit : Bool) (hm : Local q p ts ts' m) :
    Local q p ts ts' (withStructLit lit m) where
  leads := precedes_grow.withStructLit lit hm.leads
  run s a t hts hin ha hlt := by
    change (m (s.allow lit) >>= fun r =>
      Except.ok (r.1, { r.2 with structLitAllowed := s.structLitAllowed })) = _ at ha
    show (m ((s.allow lit).over ts') >>= fun r =>
      Except.ok (r.1, { r.2 with structLitAllowed := s.structLitAllowed })) = _
    cases hms : m (s.allow lit) with
    | error e =>
      rw [hms] at ha
      cases ha
    | ok r =>
      rw [hms] at ha
      cases ha
      rw [hm.run (s.allow lit) r.1 r.2 hts hin hms hlt]
      rfl

/-- Every production inside a declaration is local. -/
theorem local_walk (hw : Window q p ts ts') : Walk fun _ m => Local q p ts ts' m where
  pure := .pure
  bind := .bind
  fuel := ⟨fun _ _ _ hm => (nomatch hm), fun _ _ _ _ _ hm => (nomatch hm)⟩
  peek := .peek hw
  peekToken := .of_reads fun _ hts hin hlt => hw.peekToken hts hlt hin.le
  previous := .previous hw
  check := .check hw
  atEof := .check hw .eof
  advance := .advance hw
  consume := .consume hw
  textOf _ := .of_reads fun _ _ _ _ => rfl
  intern text := .of_stays (fun s => precedes_grow.intern s text) (fun _ => rfl) fun _ => rfl
  alloc kind span kids payload flags := .of_stays
    (fun s => precedes_grow.alloc s kind span kids payload flags) (fun _ => rfl) fun _ => rfl
  kindOf := .kindOf
  spanOf := .spanOf
  report d := .of_stays (fun s => precedes_grow.report s d) (fun _ => rfl) fun _ => rfl
  errorsSize := .of_reads fun _ _ _ _ => rfl
  countStray := .countStray
  slip e := .of_stays (fun s => precedes_grow.slip s _) (fun _ => rfl) fun _ => rfl
  skipUntil stop := (dropping_skipTokens stop).local hw fun s hts hin hlt => by
    unfold TokenStream.atEof TokenStream.check
    rw [hw.peek hts hlt hin.le]
  syncRest := dropping_syncTokens.local hw fun s hts hin hlt => by
    unfold TokenStream.atEof TokenStream.check
    rw [hw.peek hts hlt hin.le, hw.previous_le hts hlt.le (hin.le.trans_lt hlt) hin]
  structLit lit _ hm := .withStructLit lit hm
  brace hm hm' := (Local.of_reads fun _ _ _ _ => rfl : Local q p ts ts' structLitAllowed).bind
    fun _ => (Local.check hw .l_brace).bind fun _ => .ite hm hm'

end Eter.Parser
