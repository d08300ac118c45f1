import Eter.LexerTurns
import Eter.LexerRoundTrip

/-!
# Tokens in the order of the text

A turn of the loop makes a token only as its last item, so without errors the tokens lie in the
text one behind the other.
-/

namespace Eter.Lexer
open Scan Cursor

/-- No item is an error. -/
def Silent (items : List LexerItem) : Prop := ∀ e, .error e ∉ items

theorem silent_append {xs ys : List LexerItem} : Silent (xs ++ ys) ↔ Silent xs ∧ Silent ys := by
  constructor
  · exact fun h => ⟨fun e he => h e (List.mem_append_left _ he),
      fun e he => h e (List.mem_append_right _ he)⟩
  · rintro ⟨hx, hy⟩ e he
    rcases List.mem_append.mp he with he | he
    · exact hx e he
    · exact hy e he

/-- Items that are all errors. -/
def Errors (items : List LexerItem) : Prop := ∀ it ∈ items, ∃ e, it = .error e

theorem Errors.nil : Errors [] := fun _ h => nomatch h

theorem Errors.one (kind : LexerError.Kind) (p q : ℕ) : Errors [pushLexerError kind p q] := by
  intro it hit
  exact ⟨_, List.mem_singleton.mp hit⟩

theorem Errors.append {xs ys : List LexerItem} (hx : Errors xs) (hy : Errors ys) :
    Errors (xs ++ ys) := by
  intro it hit
  rcases List.mem_append.mp hit with h | h
  · exact hx it h
  · exact hy it h

theorem Errors.eq_nil {items : List LexerItem} (h : Errors items) (hs : Silent items) :
    items = [] := by
  cases items with
  | nil => rfl
  | cons it items =>
    obtain ⟨e, rfl⟩ := h it (by simp)
    exact (hs e (by simp)).elim

theorem closeUnicodeEscape_errors (escapeStart : ℕ) (hasDigits : Bool) (cur : Cur) :
    Errors (closeUnicodeEscape escapeStart hasDigits cur).1 := by
  rw [closeUnicodeEscape_eq]
  dsimp only
  split_ifs
  · exact Errors.nil
  · exact Errors.one _ _ _

theorem lexUnicodeEscape_errors {escapeStart : ℕ} {cur cur' : Cur} {items : List LexerItem}
    (h : lexUnicodeEscape escapeStart cur = some (items, cur')) : Errors items := by
  unfold lexUnicodeEscape at h
  split at h
  · next cs _ =>
    split_ifs at h
    have hclose := closeUnicodeEscape_errors escapeStart
      (decide (cur.pos + 2 < (skipWhile isHexDigit (cur.pos + 2) cs).pos))
      (skipWhile isHexDigit (cur.pos + 2) cs)
    rw [Option.some.inj h] at hclose
    exact hclose
  · cases h

theorem lexEscape_errors (escapeStart : ℕ) (cur : Cur) :
    Errors (lexEscape escapeStart cur).errors := by
  unfold lexEscape
  split
  · exact Errors.one _ _ _
  · split
    · next h => exact lexUnicodeEscape_errors h
    · split_ifs
      · exact Errors.nil
      · exact Errors.one _ _ _

theorem quotedTurn_errors (quote : UInt8) (pos : ℕ) (c : UInt8) (cs : Bytes) :
    Errors (quotedTurn quote pos c cs).errors := by
  unfold quotedTurn
  split_ifs
  · exact lexEscape_errors _ _
  all_goals exact Errors.nil

theorem lexQuoted_errors (quote : UInt8) (fuel : ℕ) (items : List LexerItem) (count : ℕ)
    (cur : Cur) (h : Errors items) : Errors (lexQuoted quote fuel items count cur).items := by
  induction fuel generalizing items count cur with
  | zero => exact h
  | succ fuel ih =>
    obtain ⟨pos, rest⟩ := cur
    cases rest with
    | nil => exact h
    | cons c cs =>
      have hturn := h.append (quotedTurn_errors quote pos c cs)
      simp only [lexQuoted]
      cases ht : quotedTurn quote pos c cs with
      | «continue» errors chars cur' =>
        rw [ht] at hturn
        exact ih _ _ _ hturn
      | stop terminated errors cur' =>
        rw [ht] at hturn
        exact hturn

/-- A turn without errors makes one token over all that it reads. -/
def OneToken (pos : ℕ) (r : List LexerItem × Cur) : Prop :=
  ∃ t, r.1 = [.token t] ∧ t.tokenSpan = ⟨pos, r.2.pos⟩

theorem oneToken_of_last {pos : ℕ} {cur cur' : Cur} {items : List LexerItem} {it : LexerItem}
    (hcov : Covers pos cur (items ++ [it], cur')) (herr : Errors items)
    (h : Silent (items ++ [it])) : OneToken pos (items ++ [it], cur') := by
  obtain rfl := herr.eq_nil (silent_append.mp h).1
  obtain ⟨it', hit', hspan⟩ := hcov.whole
  obtain rfl := List.mem_singleton.mp hit'
  cases it' with
  | token t => exact ⟨t, rfl, hspan⟩
  | error e => exact (h e (by simp)).elim

theorem blockCommentItems_last (tokStart : ℕ) (cur : Cur) : ∃ items it,
    (blockCommentItems tokStart cur).1 = items ++ [it] ∧ Errors items := by
  unfold blockCommentItems
  dsimp only
  split_ifs
  · exact ⟨[], _, rfl, Errors.nil⟩
  · exact ⟨[_], _, rfl, Errors.one _ _ _⟩

theorem lexComment_last {tokStart : ℕ} {cur cur' : Cur} {items : List LexerItem}
    (h : lexComment tokStart cur = some (items, cur')) :
    ∃ errors it, items = errors ++ [it] ∧ Errors errors := by
  unfold lexComment at h
  split at h
  · split_ifs at h
    · obtain ⟨errors, it, heq, herr⟩ := blockCommentItems_last tokStart ⟨cur.pos + 1, _⟩
      rw [Option.some.inj h] at heq
      exact ⟨errors, it, heq, herr⟩
    · cases h
      exact ⟨[], _, rfl, Errors.nil⟩
  · cases h

theorem lexToken_last (tokStart : ℕ) (c : UInt8) (cur : Cur) :
    ∃ errors it, (lexToken tokStart c cur).1 = errors ++ [it] ∧ Errors errors := by
  unfold lexToken
  split_ifs
  · exact ⟨[], _, rfl, Errors.nil⟩
  · exact ⟨[], _, rfl, Errors.nil⟩
  · exact ⟨_, _, rfl, lexQuoted_errors _ _ _ _ _ Errors.nil⟩
  · exact ⟨_, _, rfl, lexQuoted_errors _ _ _ _ _ Errors.nil⟩
  · exact ⟨[], _, rfl, Errors.nil⟩

theorem lexStep_last (pos : ℕ) (c : UInt8) (cs : Bytes) :
    ∃ errors it, (lexStep pos c cs).1 = errors ++ [it] ∧ Errors errors := by
  unfold lexStep
  dsimp only
  split
  · next r hr =>
    split_ifs at hr
    exact lexComment_last hr
  · exact lexToken_last _ _ _

theorem lexStep_oneToken {pos : ℕ} {c : UInt8} {cs : Bytes} (h : Silent (lexStep pos c cs).1) :
    OneToken pos (lexStep pos c cs) := by
  have hcov : Covers pos ⟨pos + 1, cs⟩ (lexStep pos c cs) := by
    refine lexStep_covers fun hdoubled => ?_
    rw [(lexStep_doubled hdoubled).1] at h
    exact h _ (List.mem_singleton.mpr rfl)
  obtain ⟨errors, it, heq, herr⟩ := lexStep_last pos c cs
  have hpair : lexStep pos c cs = (errors ++ [it], (lexStep pos c cs).2) := by rw [← heq]
  rw [hpair] at hcov h ⊢
  exact oneToken_of_last hcov herr h

/-! ### The whole text -/

/-- Tokens between two places, one behind the other. -/
def Lined : ℕ → ℕ → List Token → Prop
  | lo, hi, [] => lo ≤ hi
  | lo, hi, t :: ts => lo ≤ t.tokenSpan.start ∧ t.tokenSpan.start ≤ t.tokenSpan.end ∧
      Lined t.tokenSpan.end hi ts

theorem Lined.from {lo lo' hi : ℕ} {ts : List Token} (h : Lined lo hi ts) (hlo : lo' ≤ lo) :
    Lined lo' hi ts := by
  cases ts with
  | nil => exact hlo.trans h
  | cons t ts => exact ⟨hlo.trans h.1, h.2⟩

theorem Lined.append {lo mid hi : ℕ} {ts us : List Token} (h : Lined lo mid ts)
    (h' : Lined mid hi us) : Lined lo hi (ts ++ us) := by
  induction ts generalizing lo with
  | nil => exact h'.from h
  | cons t ts ih => exact ⟨h.1, h.2.1, ih h.2.2⟩

theorem tokensOf_append (xs ys : List LexerItem) :
    TokenStream.tokensOf (xs ++ ys) = TokenStream.tokensOf xs ++ TokenStream.tokensOf ys := by
  induction xs with
  | nil => rfl
  | cons x xs ih =>
    cases x with
    | token t =>
      simp only [List.cons_append, TokenStream.tokensOf, ih]
      split_ifs <;> rfl
    | error e => simp only [List.cons_append, TokenStream.tokensOf, ih]

theorem OneToken.lined {pos : ℕ} {r : List LexerItem × Cur} (h : OneToken pos r)
    (hpos : pos ≤ r.2.pos) : Lined pos r.2.pos (TokenStream.tokensOf r.1) := by
  obtain ⟨t, hitems, hspan⟩ := h
  rw [hitems]
  simp only [TokenStream.tokensOf]
  split_ifs
  · exact hpos
  · refine ⟨?_, ?_, ?_⟩ <;> rw [hspan]
    · exact hpos
    · exact le_rfl

theorem lexRange_lined (cur : Cur) (h : Silent (lexRange cur)) :
    Lined cur.pos (cur.pos + cur.rest.length) (TokenStream.tokensOf (lexRange cur)) := by
  induction cur using turns_induction with
  | stop cur pos hs =>
    rw [lexRange_stop hs]
    exact Nat.le_add_right _ _
  | turn cur pos c cs hs ih =>
    obtain ⟨u, hu, -⟩ := skipWhitespace_reads cur
    obtain ⟨v, hv⟩ := lexStep_reads pos c cs
    rw [hs] at hu
    have hall := hu.trans hv
    have hlen := hall.length_eq
    have hpos := hall.pos_eq
    rw [lexRange_turn hs, silent_append] at h
    rw [lexRange_turn hs, tokensOf_append]
    have hrest := ih h.2
    rw [show (lexStep pos c cs).2.pos + (lexStep pos c cs).2.rest.length =
      cur.pos + cur.rest.length by omega] at hrest
    exact ((lexStep_oneToken h.1).lined hv.pos_le).from hu.pos_le |>.append hrest

/-- The tokens of a text without lexical errors, with the one at its end. -/
theorem lexAll_lined {source : Bytes} (h : Silent (lexAll source)) :
    Lined 0 source.length (TokenStream.tokensOf (lexAll source)) := by
  rw [lexAll_eq, silent_append] at h
  rw [lexAll_eq, tokensOf_append]
  have hrange := lexRange_lined ⟨0, source⟩ h.1
  rw [show (⟨0, source⟩ : Cur).pos + (⟨0, source⟩ : Cur).rest.length = source.length from
    Nat.zero_add _] at hrange
  exact hrange.append ⟨le_rfl, le_rfl, le_rfl⟩

theorem Lined.get {lo hi : ℕ} {ts : List Token} (h : Lined lo hi ts) {i : ℕ} {t : Token}
    (hi' : ts[i]? = some t) : lo ≤ t.tokenSpan.start ∧ t.tokenSpan.start ≤ t.tokenSpan.end ∧
      Lined t.tokenSpan.end hi (ts.drop (i + 1)) := by
  induction ts generalizing lo i with
  | nil => cases hi'
  | cons u ts ih =>
    cases i with
    | zero =>
      cases hi'
      exact ⟨h.1, h.2.1, h.2.2⟩
    | succ i =>
      obtain ⟨hlo, hord, hrest⟩ := ih h.2.2 hi'
      exact ⟨h.1.trans (h.2.1.trans hlo), hord, hrest⟩

theorem Lined.le {lo hi : ℕ} {ts : List Token} (h : Lined lo hi ts) : lo ≤ hi := by
  induction ts generalizing lo with
  | nil => exact h
  | cons t ts ih => exact h.1.trans (h.2.1.trans (ih h.2.2))

end Eter.Lexer
