import Eter.ProjectionAssignment

/-!
# Calls that report nothing

What is parsed without a diagnostic from one state is parsed so from every state that stands at the
same place of the same stream, whatever was built and reported before.
-/

namespace Eter.Parser
open Stateful Diag

variable {s t u : PState} {n d : ℕ} {i j : ℕ} {call : Call} {x : NodeIndex}

/-! ### States of one stream -/

def PState.allow (s : PState) (lit : Bool) : PState := { s with structLitAllowed := lit }

/-- The kind of a token of the stream, wherever the state stands. -/
def PState.kindAt (s : PState) (i : ℕ) : Token.Kind := (s.at i).stream.peek 0

structure PState.Shares (s t : PState) : Prop where
  tokens : t.stream.tokens = s.stream.tokens
  source : t.stream.source = s.stream.source
  lit : t.structLitAllowed = s.structLitAllowed

theorem PState.Shares.refl (s : PState) : s.Shares s := ⟨rfl, rfl, rfl⟩

theorem PState.Shares.trans (h : s.Shares t) (h' : t.Shares u) : s.Shares u :=
  ⟨h'.tokens.trans h.tokens, h'.source.trans h.source, h'.lit.trans h.lit⟩

theorem PState.Shares.kindAt (h : s.Shares t) (i : ℕ) : t.kindAt i = s.kindAt i := by
  unfold PState.kindAt TokenStream.peek PState.at
  rw [h.tokens]

theorem PState.Shares.allow (h : s.Shares t) (lit : Bool) : (s.allow lit).Shares (t.allow lit) :=
  ⟨h.tokens, h.source, rfl⟩

theorem PState.peek_eq_kindAt (s : PState) : s.stream.peek 0 = s.kindAt s.stream.cursor := rfl

theorem PState.peek_of_cursor (hi : s.stream.cursor = i) : s.stream.peek 0 = s.kindAt i := by
  rw [← hi]
  rfl

theorem PState.peek_of_shares (h : s.Shares t) (hi : t.stream.cursor = i) :
    t.stream.peek 0 = s.kindAt i := by
  rw [PState.peek_of_cursor hi, h.kindAt]

theorem PState.Extends.shares (h : s.Extends t) : s.Shares t := ⟨h.tokens, h.source, h.lit⟩

theorem PState.Extends.trans (h : s.Extends t) (h' : t.Extends u) : s.Extends u :=
  ⟨h'.valid, h'.tokens.trans h.tokens, h'.source.trans h.source, h'.lit.trans h.lit,
    h.forward.trans h'.forward⟩

theorem PState.Valid.refl (h : s.Valid) : s.Extends s := ⟨h, rfl, rfl, rfl, le_rfl⟩

theorem PState.Valid.allow (h : s.Valid) (lit : Bool) : (s.allow lit).Valid := ⟨h.inside, h.tree⟩

theorem lt_of_kindAt (h : s.kindAt i ≠ .eof) : i < s.stream.tokens.length := lt_of_peek h

/-! ### Calls of a valid state -/

/-- The tokens with which a call may begin. -/
def Starts (k : Token.Kind) : Call → Prop
  | .expr m => 0 ≤ m
  | .stmt => k ≠ .eof
  | .topLevelDecl => k ≠ .eof
  | .ifExpr => k = .kw_if
  | _ => True

def Call.cat : Call → Cat
  | .expr _ => .expr
  | .type => .type
  | .pat => .pat
  | .stmt => .stmt
  | .block => .block
  | .ifExpr => .ifExpr
  | .topLevelDecl => .decl

/-- The depth that suffices for any call. -/
def PState.depth (s : PState) : ℕ := 4 * s.stream.tokens.length + 5

theorem PState.Shares.depth (h : s.Shares t) : t.depth = s.depth := by
  unfold PState.depth
  rw [h.tokens]

theorem PState.Valid.held (h : s.Valid) (hc : Starts (s.stream.peek 0) call) (hn : s.depth ≤ n) :
    Yields (Parser.run n call) (fun i t => ∃ b hs, Holds ⟨.acceptance, s.stream.tokens, s.stream.cursor⟩
      b 0 0 [] (hs ++ [(i, call.cat)]) t) s := by
  obtain ⟨hs, hh⟩ := h.holds
  have hrec := run_recurses ⟨.acceptance, s.stream.tokens, s.stream.cursor⟩ n
  unfold PState.depth at hn
  cases call with
  | expr m => exact ((hrec.expr hc (by omega)).yields hh).mono fun _ _ h => ⟨_, _, h⟩
  | type => exact ((hrec.type (by omega)).yields hh).mono fun _ _ h => ⟨_, _, h⟩
  | pat => exact ((hrec.pat (by omega)).yields hh).mono fun _ _ h => ⟨_, _, h⟩
  | stmt => exact ((hrec.stmt (by omega)).yields hh hc).mono fun _ _ h => ⟨_, _, h⟩
  | block => exact ((hrec.block (by omega)).yields hh).mono fun _ _ h => ⟨_, _, h⟩
  | ifExpr => exact ((hrec.ifMoves (by omega)).yields hh hc).mono fun _ _ h => ⟨_, _, h⟩
  | topLevelDecl => exact ((hrec.topLevelDecl (by omega)).yields hh hc).mono fun _ _ h => ⟨_, _, h⟩

/-- With enough depth the call is parsed. -/
theorem PState.Valid.runs (h : s.Valid) (hc : Starts (s.stream.peek 0) call) (hn : s.depth ≤ n) :
    Yields (Parser.run n call) (fun i t => s.Extends t ∧ t.Has i) s := by
  obtain ⟨i, t, ht, b, hs, hh⟩ := h.held hc hn
  obtain ⟨rs, -, hp, -⟩ := h.tree
  obtain ⟨i', t', ht', -, halike⟩ := run_recursive ((PState.Agrees.refl s).twin rs rs) n call _ s s
    ((PState.Agrees.refl s).alike hp hp) i t ht
  obtain ⟨rs', hp', hg'⟩ := hh.tree
  have hnull : call.cat.nullable = false := by cases call <;> rfl
  obtain ⟨k, r, rfl, -, hr⟩ := hg'.record_of_held
    (List.mem_append_right _ (List.mem_singleton_self _)) hnull
  refine ⟨some k, t, ht, ⟨⟨?_, rs', _, hp', hg'⟩, hh.tokens, halike.leftSource, halike.leftLit,
    hh.start⟩, r.span, ?_⟩
  · rw [hh.tokens]
    exact hh.inside
  · rw [hp', spanOf?_of_record hr]

/-! ### Calls without errors -/

/-- Without a diagnostic the call at token `i` is parsed up to token `j`. -/
def CleanWith (d : ℕ) (s : PState) (call : Call) (i j : ℕ) : Prop :=
  ∀ n ≥ d, Yields (run n call) (fun _ t => t.stream.cursor = j ∧ t.errors = s.errors) (s.at i)

def Clean (s : PState) (call : Call) (i j : ℕ) : Prop := ∃ d, CleanWith d s call i j

/-- What a parser of depth `n` does from the states that stand at token `i`: it ends at token `j`
with nothing reported. -/
def ReadsWith (d : ℕ) (s : PState) (el : ℕ → ParserM NodeIndex) (i j : ℕ) : Prop :=
  ∀ n ≥ d, ∀ t, t.Valid → s.Shares t → t.stream.cursor = i →
    Yields (el n) (fun x u => el n t = .ok (x, u) ∧ t.Extends u ∧ u.Has x ∧ u.stream.cursor = j ∧
      u.errors = t.errors) t

theorem ReadsWith.mono {el : ℕ → ParserM NodeIndex} {d' : ℕ} (h : ReadsWith d s el i j)
    (hd : d ≤ d') : ReadsWith d' s el i j :=
  fun n hn => h n (hd.trans hn)

/-- From states that agree a call reports as much. -/
theorem PState.Agrees.silent (h : s.Agrees t) (hs : s.Valid) (ht : t.Valid) {x : NodeIndex}
    {s' : PState} (hrun : Parser.run n call s = .ok (x, s')) (herr : s'.errors = s.errors) :
    Yields (Parser.run n call) (fun _ t' => t'.stream.cursor = s'.stream.cursor ∧ t'.errors = t.errors)
      t := by
  obtain ⟨rs, -, hps, -⟩ := hs.tree
  obtain ⟨rs', -, hpt, -⟩ := ht.tree
  obtain ⟨i', t', hi', -, halike⟩ := run_recursive (h.twin rs rs') n call _ s t
    (h.alike hps hpt) x s' hrun
  obtain ⟨es, es', hes, hes', hids, -⟩ := halike.errors
  have hnil : es = [] := by
    have hes : s'.errors = s.errors ++ es := hes
    rw [herr] at hes
    simpa using hes.symm
  have hnil' : es' = [] := List.length_eq_zero_iff.mp (by rw [← hids.length_eq, hnil]; rfl)
  refine ⟨i', t', hi', halike.cursor, ?_⟩
  rw [hes', hnil']
  exact List.append_nil _

theorem Clean.reads (h : Clean s call i j) (hs : s.Valid) (hi : i ≤ s.stream.tokens.length)
    (hc : Starts (s.kindAt i) call) : ∃ d, ReadsWith d s (fun n => run n call) i j := by
  obtain ⟨d, hd⟩ := h
  refine ⟨max d s.depth, fun n hn t ht hsh hcur => ?_⟩
  obtain ⟨y, s', hrun, hj, herr⟩ := hd n ((le_max_left _ _).trans hn)
  have hagrees : (s.at i).Agrees t := ⟨hsh.tokens, hsh.source, hsh.lit, hcur⟩
  obtain ⟨x, u, hxu, hu, herru⟩ := hagrees.silent (hs.at hi) ht hrun herr
  have hstart : Starts (t.stream.peek 0) call := by rwa [PState.peek_of_shares hsh hcur]
  have hdepth : t.depth ≤ n := by
    rw [hsh.depth]
    exact (le_max_right _ _).trans hn
  obtain ⟨hext, hhas⟩ := (ht.runs hstart hdepth).of_eq hxu
  exact ⟨x, u, hxu, hxu, hext, hhas, hu.trans hj, herru⟩

/-! ### Steps of clean runs -/

theorem expect_hit {k : Token.Kind} (hk : s.stream.peek 0 = k) (hne : k ≠ .eof)
    {d : DiagID} {context : String} :
    Yields (expect k d context) (fun tok t => tok = s.stream.peekToken 0 ∧ t = s.moved) s := by
  unfold expect
  refine (consume_hit hk hne).bind ?_
  rintro _ _ ⟨rfl, rfl⟩
  refine ⟨_, _, rfl, ?_, rfl⟩
  have hlt : s.stream.cursor < s.stream.tokens.length := lt_of_peek (s := s) (hk ▸ hne)
  unfold TokenStream.previous TokenStream.peekToken PState.moved
  simp [List.getElem?_eq_getElem hlt]

/-- What `m` does without the flag's former value it does inside `withStructLit`. -/
theorem Yields.withStructLit {α : Type} {lit : Bool} {m : ParserM α} {Q : α → PState → Prop}
    (hm : Yields m (fun a t => Q a (t.allow s.structLitAllowed)) (s.allow lit)) :
    Yields (withStructLit lit m) Q s := by
  obtain ⟨a, t, ha, hQ⟩ := hm
  refine ⟨a, t.allow s.structLitAllowed, ?_, hQ⟩
  show (m (s.allow lit) >>= fun p =>
    Except.ok (p.1, { p.2 with structLitAllowed := s.structLitAllowed })) = _
  rw [ha]
  rfl

end Eter.Parser
