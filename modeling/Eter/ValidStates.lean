import Eter.ParserRuns
import Eter.TwinRuns

/-!
# The states between two calls

A state is valid when its cursor is within the stream and its pool is one that the parser builds.
An expression that is parsed from there ends in a valid state, and where it ends depends on the
stream only.
-/

namespace Eter.Parser
open Stateful Brackets

structure PState.Valid (s : PState) : Prop where
  inside : s.stream.cursor ≤ s.stream.tokens.length
  tree : ∃ rs hs, s.pool = poolOf rs ∧ Grown rs s.errors hs

/-- What a call changes nothing about. -/
structure PState.Extends (s t : PState) : Prop where
  valid : t.Valid
  tokens : t.stream.tokens = s.stream.tokens
  source : t.stream.source = s.stream.source
  lit : t.structLitAllowed = s.structLitAllowed
  forward : s.stream.cursor ≤ t.stream.cursor

/-- The state with another cursor. -/
def PState.at (s : PState) (i : ℕ) : PState :=
  { s with stream := { s.stream with cursor := i } }

variable {s t : PState} {n : ℕ} {m : ℤ} {i j : ℕ}

@[simp] theorem PState.at_self (s : PState) : s.at s.stream.cursor = s := rfl

theorem PState.Valid.at (h : s.Valid) (hi : i ≤ s.stream.tokens.length) : (s.at i).Valid :=
  ⟨hi, h.tree⟩

theorem PState.Valid.initial (tokens : List Token) (lexErrors : List LexerError) (source : Bytes)
    (interner : StringInterner) :
    (initialState (.fresh tokens lexErrors source) interner).Valid where
  inside := Nat.zero_le _
  tree := ⟨[sentinel], [], poolOf_sentinel.symm, Grown.new⟩

/-- Nothing is consumed yet. -/
theorem PState.Valid.holds (h : s.Valid) : ∃ hs, Holds ⟨.acceptance, s.stream.tokens,
    s.stream.cursor⟩ (s.stream.tokens.length - s.stream.cursor) 0 0 [] hs s := by
  obtain ⟨rs, hs, hp, hg⟩ := h.tree
  have hinside := h.inside
  refine ⟨hs, ⟨rfl, le_rfl, hinside, ?_, Nat.zero_le _, Nat.zero_le _, Or.inr ?_, rs, hp, hg⟩⟩
  · show s.stream.tokens.length ≤ _
    omega
  · have hnone : Watch.consumed ⟨.acceptance, s.stream.tokens, s.stream.cursor⟩
        s.stream.cursor = [] := by
      unfold Watch.consumed
      exact List.drop_eq_nil_of_le (by simp)
    unfold Watch.word
    rw [hnone]
    rfl

theorem PState.Valid.moved (h : s.Valid) {k : Token.Kind} (hk : s.stream.peek 0 = k)
    (hne : k ≠ .eof) : s.moved.Valid := by
  obtain ⟨hs, hh⟩ := h.holds
  exact ⟨hh.cursor_lt (by rw [hk]; exact hne), h.tree⟩

/-- The side of a run that goes on from a state. -/
def PState.side (s : PState) (rs : List NodeRecord) : Side :=
  ⟨s.stream.tokens, s.stream.source, rs, s.errors, s.slips⟩

/-- Two states that stand at the same place of one stream. -/
structure PState.Agrees (s t : PState) : Prop where
  tokens : t.stream.tokens = s.stream.tokens
  source : t.stream.source = s.stream.source
  lit : t.structLitAllowed = s.structLitAllowed
  cursor : t.stream.cursor = s.stream.cursor

theorem PState.Agrees.refl (s : PState) : s.Agrees s := ⟨rfl, rfl, rfl, rfl⟩

/-- Two runs from states that agree. -/
def PState.Agrees.twin (h : s.Agrees t) (rs rs' : List NodeRecord) : Twin where
  left := s.side rs
  right := t.side rs'
  shift := 0
  length := by simp [PState.side, h.tokens]
  kind := by simp [PState.side, Side.tokenAt, h.tokens, h.source]
  text := by simp [PState.side, Side.tokenAt, h.tokens, h.source]

theorem PState.Agrees.alike (h : s.Agrees t) {rs rs' : List NodeRecord} (hs : s.pool = poolOf rs)
    (ht : t.pool = poolOf rs') : Alike (h.twin rs rs') ⟨s.structLitAllowed, 0, []⟩ s t where
  leftTokens := rfl
  leftSource := rfl
  rightTokens := rfl
  rightSource := rfl
  cursor := h.cursor
  past := Nat.zero_le _
  leftLit := rfl
  rightLit := h.lit
  pools := ⟨[], [], by rw [hs, List.append_nil]; rfl, by rw [ht, List.append_nil]; rfl, .nil⟩
  errors := ⟨[], [], (List.append_nil _).symm, (List.append_nil _).symm, .nil, rfl⟩
  names := fun _ hp => nomatch hp

/-- From states that agree a call ends in states that agree. -/
theorem PState.Agrees.run (h : s.Agrees t) (hs : s.Valid) (ht : t.Valid) {call : Call}
    {Q : NodeIndex → PState → Prop} (hrun : Yields (run n call) Q s) :
    Yields (run n call) (fun _ t' => ∃ i s', Q i s' ∧ s'.Agrees t') t := by
  obtain ⟨rs, -, hps, -⟩ := hs.tree
  obtain ⟨rs', -, hpt, -⟩ := ht.tree
  obtain ⟨i, s', hi, hQ⟩ := hrun
  obtain ⟨i', t', hi', -, halike⟩ := run_recursive (h.twin rs rs') n call _ s t
    (h.alike hps hpt) i s' hi
  have hlit : t'.structLitAllowed = s'.structLitAllowed := by
    rw [halike.rightLit, halike.leftLit]
  refine ⟨i', t', hi', i, s', hQ, ?_, ?_, hlit, halike.cursor⟩
  · rw [halike.rightTokens, halike.leftTokens]
    exact h.tokens
  · rw [halike.rightSource, halike.leftSource]
    exact h.source

/-- A node that the pool knows. -/
def PState.Has (s : PState) (i : NodeIndex) : Prop := ∃ span, s.pool.spanOf? i = some span

/-- With enough depth an expression is parsed. -/
theorem PState.Valid.expr (h : s.Valid) (hm : 0 ≤ m)
    (hn : 4 * (s.stream.tokens.length - s.stream.cursor) + 2 ≤ n) :
    Yields (Parser.run n (.expr m)) (fun i t => s.Extends t ∧ t.Has i) s := by
  obtain ⟨hs, hh⟩ := h.holds
  have hspec := ((run_recurses _ n).expr hm hn).yields hh
  obtain ⟨i, t, ht, hh'⟩ := hspec
  obtain ⟨rs, -, hp, -⟩ := h.tree
  obtain ⟨i', t', ht', -, halike⟩ := run_recursive ((PState.Agrees.refl s).twin rs rs) n
    (.expr m) _ s s ((PState.Agrees.refl s).alike hp hp) i t ht
  obtain ⟨rs', hp', hg'⟩ := hh'.tree
  obtain ⟨k, r, rfl, -, hr⟩ := hg'.record_of_held (c := .expr)
    (List.mem_append_right _ (List.mem_singleton_self _)) rfl
  refine ⟨some k, t, ht, ⟨⟨?_, rs', _, hp', hg'⟩, hh'.tokens, halike.leftSource,
    halike.leftLit, hh'.start⟩, r.span, ?_⟩
  · rw [hh'.tokens]
    exact hh'.inside
  · rw [hp', spanOf?_of_record hr]

/-! ### Where an expression ends -/

/-- With depth `d`, the expression at token `i` is parsed up to token `j`. -/
def ParsesWith (d : ℕ) (s : PState) (m : ℤ) (i j : ℕ) : Prop :=
  ∀ n ≥ d, Yields (run n (.expr m)) (fun _ t => t.stream.cursor = j) (s.at i)

/-- With enough depth it is. -/
def ParsesTo (s : PState) (m : ℤ) (i j : ℕ) : Prop := ∃ d, ParsesWith d s m i j

theorem ParsesWith.transfer {d : ℕ} (h : ParsesWith d s m i j) (hs : s.Valid) (ht : t.Valid)
    (hi : i ≤ s.stream.tokens.length) (htokens : t.stream.tokens = s.stream.tokens)
    (hsource : t.stream.source = s.stream.source)
    (hlit : t.structLitAllowed = s.structLitAllowed) : ParsesWith d t m i j := by
  intro n hn
  have hagrees : (s.at i).Agrees (t.at i) := ⟨htokens, hsource, hlit, rfl⟩
  refine (hagrees.run (hs.at hi) (ht.at (htokens ▸ hi)) (h n hn)).mono ?_
  rintro _ t' ⟨-, s', hj, hagrees'⟩
  rw [hagrees'.cursor, hj]

theorem ParsesTo.forward (h : ParsesTo s m i j) (hs : s.Valid) (hi : i ≤ s.stream.tokens.length)
    (hm : 0 ≤ m) : i ≤ j := by
  obtain ⟨d, hd⟩ := h
  have hspec := (hs.at hi).expr (n := max d (4 * (s.stream.tokens.length - i) + 2)) hm
    (le_max_right _ _)
  obtain ⟨x, t, -, hext, hj⟩ := hspec.and (hd _ (le_max_left _ _))
  exact hj ▸ hext.1.forward

end Eter.Parser
