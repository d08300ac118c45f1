import Eter.Brackets
import Eter.TreeGrowth
import Eter.ParserState

/-!
# The invariant of the parser

What holds between any two steps of the parser: how many tokens are left at most, how many errors
and stray braces there are at least, which brackets are open, and which nodes are held. Consumed
tokens are followed in one of two modes, each until something goes wrong.
-/

namespace Eter.Parser
open Stateful Brackets Diag

inductive Bracket where
  | paren | brace | square
  deriving DecidableEq, Repr

/-- The parser never consumes the bad kinds without reporting an error. -/
def symOf : Token.Kind → Sym Bracket
  | .l_paren => .opening .paren
  | .r_paren => .closing .paren
  | .l_brace => .opening .brace
  | .r_brace => .closing .brace
  | .l_square => .opening .square
  | .r_square => .closing .square
  | .unknown => .bad
  | .eof => .bad
  | _ => .neutral

/-- Acceptance follows all brackets until an error is reported; containment follows braces until
one goes astray. -/
inductive Mode where
  | acceptance | containment
  deriving DecidableEq, Repr

namespace Mode

def sym : Mode → Token.Kind → Sym Bracket
  | acceptance, k => symOf k
  | containment, k => (symOf k).keep fun b => b = .brace

def tracked : Mode → List Bracket → List Bracket
  | acceptance, st => st
  | containment, st => st.filter fun b => b = .brace

def Noisy : Mode → PState → Prop
  | acceptance, s => 1 ≤ s.errors.length
  | containment, s => 1 ≤ s.strays

theorem Noisy.mono {m : Mode} {s s' : PState} (h : m.Noisy s)
    (he : s.errors.length ≤ s'.errors.length) (hq : s.strays ≤ s'.strays) : m.Noisy s' := by
  cases m with
  | acceptance => exact Nat.le_trans h he
  | containment => exact Nat.le_trans h hq

end Mode

/-- The mode, the tokens, and where the consumed ones begin. -/
structure Watch where
  mode : Mode
  tokens : List Token
  base : ℕ

/-- The consumed tokens. -/
def Watch.consumed (w : Watch) (cursor : ℕ) : List Token := (w.tokens.take cursor).drop w.base

def Watch.word (w : Watch) (cursor : ℕ) : List (Sym Bracket) :=
  (w.consumed cursor).map fun t => w.mode.sym t.tokenKind

/-- At most `b` tokens are unread, at least `e` errors are reported, and at least `q` braces are
astray; the brackets `st` are open, the innermost first, and the nodes `hs` are held. -/
structure Holds (w : Watch) (b e q : ℕ) (st : List Bracket) (hs : Held) (s : PState) : Prop where
  tokens : s.stream.tokens = w.tokens
  start : w.base ≤ s.stream.cursor
  inside : s.stream.cursor ≤ w.tokens.length
  budget : w.tokens.length ≤ s.stream.cursor + b
  errors : e ≤ s.errors.length
  strays : q ≤ s.strays
  nested : w.mode.Noisy s ∨ Brackets.run (w.word s.stream.cursor) [] = some (w.mode.tracked st)
  tree : ∃ rs, s.pool = poolOf rs ∧ Grown rs s.errors hs

variable {w : Watch} {b e q : ℕ} {st st' : List Bracket} {hs cs : Held} {s s' : PState}
  {α : Type} {Q : α → PState → Prop}

/-! ### Weakening -/

theorem Holds.weaken (h : Holds w b e q st hs s) {b' e' : ℕ} (hb : b ≤ b') (he : e' ≤ e) :
    Holds w b' e' q st hs s where
  tokens := h.tokens
  start := h.start
  inside := h.inside
  budget := by have := h.budget; omega
  errors := he.trans h.errors
  strays := h.strays
  nested := h.nested
  tree := h.tree

theorem Holds.more (h : Holds w b e q st hs s) {b' : ℕ} (hb : b ≤ b') : Holds w b' e q st hs s :=
  h.weaken hb le_rfl

theorem Holds.fewer (h : Holds w b e q st hs s) {e' : ℕ} (he : e' ≤ e) : Holds w b e' q st hs s :=
  h.weaken le_rfl he

/-- The number of unread tokens is a budget. -/
theorem Holds.exact (h : Holds w b e q st hs s) :
    Holds w (w.tokens.length - s.stream.cursor) e q st hs s where
  tokens := h.tokens
  start := h.start
  inside := h.inside
  budget := by omega
  errors := h.errors
  strays := h.strays
  nested := h.nested
  tree := h.tree

/-- Either a token was consumed meanwhile or the stream is where it was. -/
theorem Holds.moved_or_same (h : Holds w (w.tokens.length - s.stream.cursor) e q st hs s')
    (hs' : s.stream.tokens = w.tokens) (hin : s.stream.cursor ≤ w.tokens.length) :
    Holds w (w.tokens.length - s.stream.cursor - 1) e q st hs s' ∨
      ∀ k, s'.stream.peek k = s.stream.peek k := by
  have hbud := h.budget
  have hin' := h.inside
  by_cases hlt : s.stream.cursor < s'.stream.cursor
  · refine Or.inl { h with budget := ?_ }
    omega
  · refine Or.inr fun k => ?_
    have hcur : s'.stream.cursor = s.stream.cursor := by omega
    unfold TokenStream.peek
    rw [h.tokens, hs', hcur]

theorem Holds.exactErrors (h : Holds w b e q st hs s) : Holds w b s.errors.length q st hs s :=
  { h with errors := le_rfl }

/-- Once an error is reported, held nodes may be dropped. -/
theorem Holds.drop (h : Holds w b e q st hs s) (he : 1 ≤ e) (hsub : cs.Sublist hs) :
    Holds w b e q st cs s := by
  obtain ⟨rs, hp, hg⟩ := h.tree
  have herrs : s.errors ≠ [] := by
    intro h0
    have hlen := h.errors
    rw [h0] at hlen
    simp at hlen
    omega
  exact { h with tree := ⟨rs, hp, hg.drop herrs hsub⟩ }

/-- A held node of one category is of any wider one. -/
theorem Holds.widen {i : NodeIndex} {c c' : Cat} (h : Holds w b e q st (hs ++ [(i, c)]) s)
    (hwithin : c.within c' = true) : Holds w b e q st (hs ++ [(i, c')]) s := by
  obtain ⟨rs, hp, hg⟩ := h.tree
  refine { h with tree := ⟨rs, hp, hg.recast (by simp [Held.indices]) ?_⟩ }
  intro p hmem
  rcases List.mem_append.mp hmem with hmem | hmem
  · exact hg.held p (List.mem_append_left _ hmem)
  · rw [List.mem_singleton.mp hmem]
    have hi := hg.held (i, c) (List.mem_append_right _ (List.mem_singleton_self _))
    cases i with
    | none => exact Cat.nullable_of_within hwithin hi
    | some j =>
      obtain ⟨r, hr, hc⟩ := hi
      exact ⟨r, hr, Cat.admits_of_within hwithin hc⟩

/-- A missing child is held as `NullNode`. -/
theorem Holds.holdNull (h : Holds w b e q st (hs ++ cs) s) {c : Cat} (hnull : c.nullable = true) :
    Holds w b e q st (hs ++ [(NullNode, c)] ++ cs) s := by
  obtain ⟨rs, hp, hg⟩ := h.tree
  have hrefs : refs (Held.indices (hs ++ [(NullNode, c)] ++ cs)) =
      refs (Held.indices (hs ++ cs)) := by
    simp only [Held.indices_append, refs_append]
    show refs hs.indices ++ [] ++ _ = _
    rw [List.append_nil]
  refine { h with tree := ⟨rs, hp, ⟨hg.sentinel, hrefs ▸ hg.forest, hrefs ▸ hg.complete, ?_,
    hg.layouts, hg.counts, hg.clean⟩⟩ }
  intro p hmem
  simp only [List.mem_append, List.mem_singleton, or_assoc] at hmem
  rcases hmem with hmem | rfl | hmem
  · exact hg.held p (List.mem_append_left _ hmem)
  · exact hnull
  · exact hg.held p (List.mem_append_right _ hmem)

theorem Holds.structLit (h : Holds w b e q st hs s) (allowed : Bool) :
    Holds w b e q st hs { s with structLitAllowed := allowed } :=
  { h with nested := h.nested.imp (fun hn => hn.mono le_rfl le_rfl) id }

/-! ### The stream -/

theorem Holds.cursor_lt (h : Holds w b e q st hs s) (hk : s.stream.peek 0 ≠ .eof) :
    s.stream.cursor < w.tokens.length := by
  by_contra hge
  apply hk
  unfold TokenStream.peek
  rw [h.tokens, List.getElem?_eq_none (by omega)]

theorem Holds.pos (h : Holds w b e q st hs s) (hk : s.stream.peek 0 ≠ .eof) : 1 ≤ b := by
  have hlt := h.cursor_lt hk
  have hbud := h.budget
  omega

theorem peek_ne_eof {s : PState} (h : s.stream.atEof = false) : s.stream.peek 0 ≠ .eof := by
  simpa [TokenStream.atEof, TokenStream.check] using h

theorem peekToken_kind (s : TokenStream) : (s.peekToken 0).tokenKind = s.peek 0 := by
  unfold TokenStream.peekToken TokenStream.peek
  cases s.tokens[s.cursor + 0]? <;> rfl

/-- The word of the consumed tokens, one token further. -/
theorem Watch.word_succ {w : Watch} {c : ℕ} {t : Token} (hbase : w.base ≤ c)
    (ht : w.tokens[c]? = some t) : w.word (c + 1) = w.word c ++ [w.mode.sym t.tokenKind] := by
  obtain ⟨hc, -⟩ := List.getElem?_eq_some_iff.mp ht
  unfold Watch.word Watch.consumed
  rw [List.take_add_one, ht, List.drop_append_of_le_length (by simp; omega)]
  simp

/-- A possible step is possible in either mode. -/
theorem Mode.step_tracked (m : Mode) {k : Token.Kind} (hm : step (symOf k) st = some st') :
    step (m.sym k) (m.tracked st) = some (m.tracked st') := by
  cases m with
  | acceptance => exact hm
  | containment => exact step_keep _ hm

/-- The nesting, when the token at the cursor is consumed. -/
theorem Holds.nested_succ (h : Holds w b e q st hs s) {t : Token}
    (ht : w.tokens[s.stream.cursor]? = some t) (hm : step (symOf t.tokenKind) st = some st') :
    w.mode.Noisy s ∨ Brackets.run (w.word (s.stream.cursor + 1)) [] = some (w.mode.tracked st') := by
  rcases h.nested with hn | hn
  · exact Or.inl hn
  · rw [Watch.word_succ h.start ht]
    exact Or.inr (run_concat hn (w.mode.step_tracked hm))

theorem Holds.token_of_peek (h : Holds w b e q st hs s) (hk : s.stream.peek 0 ≠ .eof) :
    ∃ t, w.tokens[s.stream.cursor]? = some t ∧ t.tokenKind = s.stream.peek 0 := by
  have hlt := h.cursor_lt hk
  refine ⟨w.tokens[s.stream.cursor], List.getElem?_eq_getElem hlt, ?_⟩
  unfold TokenStream.peek
  rw [h.tokens, Nat.add_zero, List.getElem?_eq_getElem hlt]

end Eter.Parser
