import Eter.LexerRoundTrip
import Eter.NumericLanguage

/-!
# How indices behind dots are lexed

Digits on both sides of a dot are one float literal, so a chain of indices is cut into pairs.
-/

namespace Eter.Lexer
open Scan Cursor Separated

variable {c : UInt8} {cs d e v : Bytes} {ds : List Bytes} {pos : ℕ}

/-- Decimal digits. -/
def IsIndex (d : Bytes) : Prop := d ≠ [] ∧ d.all isDigit = true

instance (d : Bytes) : Decidable (IsIndex d) := inferInstanceAs (Decidable (_ ∧ _))

/-- A dot in front of each index. -/
def dotted (ds : List Bytes) : Bytes := ds.flatMap fun d => ch '.' :: d

theorem dotted_cons (d : Bytes) (ds : List Bytes) : dotted (d :: ds) = ch '.' :: (d ++ dotted ds) := rfl

/-- The tokens of `dotted ds` at an offset. -/
def indexTokens : ℕ → List Bytes → List Token
  | _, [] => []
  | p, [d] => [⟨.dot, ⟨p, p + 1⟩⟩, ⟨.integer_literal, ⟨p + 1, p + 1 + d.length⟩⟩]
  | p, d :: e :: ds => ⟨.dot, ⟨p, p + 1⟩⟩ ::
      ⟨.float_literal, ⟨p + 1, p + 1 + (d.length + 1 + e.length)⟩⟩ ::
        indexTokens (p + 1 + (d.length + 1 + e.length)) ds

/-- A turn at a byte that is no space. -/
theorem lexRange_at (h : isSpace c = false) : lexRange ⟨pos, c :: cs⟩ =
    (lexStep pos c cs).1 ++ lexRange (lexStep pos c cs).2 := by
  refine lexRange_turn ?_
  unfold skipWhitespace skipWhile
  rw [h]
  rfl

theorem tidy_of_digits (h : cs.all isDigit = true) : Tidy isDigit (ch '_') cs where
  all d hd := Or.inl (List.all_eq_true.mp h d hd)
  single hinfix := by
    have hmem : ch '_' ∈ cs := hinfix.subset (by simp)
    exact absurd (List.all_eq_true.mp h _ hmem) (by decide)
  last hlast := by
    have hmem : ch '_' ∈ cs := List.mem_of_getLast? hlast
    exact absurd (List.all_eq_true.mp h _ hmem) (by decide)

theorem isSpace_of_isDigit (h : isDigit c = true) : isSpace c = false := by
  by_contra hs
  rw [Bool.not_eq_false] at hs
  simp only [isSpace, Bool.or_eq_true, beq_iff_eq, or_assoc] at hs
  rcases hs with rfl | rfl | rfl | rfl <;> exact absurd h (by decide)

/-- What stands behind an index: nothing or a dot. -/
theorem dotted_head (p : UInt8 → Bool) (hp : p (ch '.') = true) (ds : List Bytes) :
    (dotted ds).head?.all p = true := by
  cases ds with
  | nil => rfl
  | cons d ds => simpa [dotted_cons] using hp

theorem lexRange_dot (cs : Bytes) (pos : ℕ) : lexRange ⟨pos, ch '.' :: cs⟩ =
    .token ⟨.dot, ⟨pos, pos + 1⟩⟩ :: lexRange ⟨pos + 1, cs⟩ := by
  rw [lexRange_at (by decide)]
  rfl

/-- A turn at a literal of one of the forms. -/
theorem lexRange_number {kind : Token.Kind} {u : Bytes} (hc : isDigit c = true)
    (h : Number c (u ++ v) kind u) (pos : ℕ) : lexRange ⟨pos, c :: (u ++ v)⟩ =
      .token ⟨kind, ⟨pos, pos + (u.length + 1)⟩⟩ :: lexRange ⟨pos + (u.length + 1), v⟩ := by
  obtain ⟨rest, hrest, hlex⟩ := h.lexes hc pos
  obtain rfl := List.append_cancel_left hrest
  rw [lexRange_at (isSpace_of_isDigit hc), digit_turn hc, hlex, Nat.add_assoc, Nat.add_comm 1]
  rfl

/-- The last index. -/
theorem lexRange_integer (h : IsIndex d) (pos : ℕ) : lexRange ⟨pos, d⟩ =
    [.token ⟨.integer_literal, ⟨pos, pos + d.length⟩⟩] := by
  obtain ⟨hne, hall⟩ := h
  obtain ⟨c, cs, rfl⟩ := List.exists_cons_of_ne_nil hne
  rw [List.all_cons, Bool.and_eq_true] at hall
  have htidy := tidy_of_digits hall.2
  obtain ⟨hrun, hafter⟩ := run_tidy (v := []) htidy rfl
  have hradix := scanRadix_tidy (c := c) (v := []) htidy rfl
  have hnumber : Number c (cs ++ []) .integer_literal cs := by
    have hform := Number.integer hradix (by rw [hafter]; exact fun _ => rfl) (by rwa [hrun])
    rwa [hrun] at hform
  have hlex := lexRange_number hall.1 hnumber pos
  rw [List.append_nil] at hlex
  rw [hlex]
  rfl

/-- Two indices and what follows them. -/
theorem lexRange_float (hd : IsIndex d) (he : IsIndex e) (pos : ℕ) (ds : List Bytes) :
    lexRange ⟨pos, d ++ ch '.' :: (e ++ dotted ds)⟩ =
      .token ⟨.float_literal, ⟨pos, pos + (d.length + 1 + e.length)⟩⟩ ::
        lexRange ⟨pos + (d.length + 1 + e.length), dotted ds⟩ := by
  obtain ⟨hne, hall⟩ := hd
  obtain ⟨c, cs, rfl⟩ := List.exists_cons_of_ne_nil hne
  rw [List.all_cons, Bool.and_eq_true] at hall
  have htidy := tidy_of_digits hall.2
  obtain ⟨hrun, hafter⟩ := run_tidy (v := ch '.' :: (e ++ dotted ds)) htidy rfl
  have hradix := scanRadix_tidy (c := c) (v := ch '.' :: (e ++ dotted ds)) htidy rfl
  obtain ⟨hrun', hafter'⟩ := run_tidy (p := isDigit) (v := dotted ds) (tidy_of_digits he.2)
    (dotted_head _ (by decide) ds)
  have hsuffix : suffixOf (dotted ds) = [] := by
    unfold suffixOf
    rw [if_neg]
    intro hf
    have hhead := dotted_head (fun d => d != ch 'f') (by decide) ds
    rw [hf] at hhead
    cases hhead
  have hstart : startsWithDigit (e ++ dotted ds) = true := by
    obtain ⟨x, xs, rfl⟩ := List.exists_cons_of_ne_nil he.1
    have hx := he.2
    rw [List.all_cons, Bool.and_eq_true] at hx
    exact hx.1
  have hnumber : Number c ((cs ++ ch '.' :: e) ++ dotted ds) .float_literal (cs ++ ch '.' :: e) := by
    rw [List.append_assoc, List.cons_append]
    have hform := Number.fraction hradix (by rw [hrun]; exact htidy.single) hafter hstart
    rwa [hrun, hrun', hafter', hsuffix, List.append_nil] at hform
  have hlex := lexRange_number hall.1 hnumber pos
  have hlen : (cs ++ ch '.' :: e).length + 1 = (c :: cs).length + 1 + e.length := by
    simp only [List.length_append, List.length_cons]
    omega
  rw [hlen, List.append_assoc, List.cons_append] at hlex
  exact hlex

theorem lexRange_dotted (hds : ∀ d ∈ ds, IsIndex d) (pos : ℕ) :
    lexRange ⟨pos, dotted ds⟩ = (indexTokens pos ds).map .token := by
  induction pos, ds using indexTokens.induct with
  | case1 pos => rfl
  | case2 pos d =>
    rw [dotted_cons, lexRange_dot]
    simp [dotted, indexTokens, lexRange_integer (hds d (by simp))]
  | case3 pos d e ds ih =>
    rw [dotted_cons, dotted_cons, lexRange_dot, lexRange_float (hds d (by simp)) (hds e (by simp)),
      ih fun d' hd' => hds d' (by simp [hd'])]
    rfl

/-! ### The whole source -/

/-- `t` and a chain of indices. -/
def indexSource (ds : List Bytes) : Bytes := ch 't' :: dotted ds

theorem lexAll_indexSource (hds : ∀ d ∈ ds, IsIndex d) : lexAll (indexSource ds) =
    .token ⟨.identifier, ⟨0, 1⟩⟩ :: (indexTokens 1 ds).map .token ++
      [.token ⟨.eof, ⟨(indexSource ds).length, (indexSource ds).length⟩⟩] := by
  have hname : lexRange ⟨0, indexSource ds⟩ =
      .token ⟨.identifier, ⟨0, 1⟩⟩ :: lexRange ⟨1, dotted ds⟩ := by
    unfold indexSource
    rw [lexRange_at (by decide)]
    have hturn : lexStep 0 (ch 't') (dotted ds) =
        ([.token ⟨.identifier, ⟨0, 1⟩⟩], ⟨1, dotted ds⟩) := by
      have hdot : isIdentByte (ch '.') = false := by decide
      have hrest : skipWhile isIdentByte 1 (dotted ds) = ⟨1, dotted ds⟩ ∧
          (dotted ds).takeWhile isIdentByte = [] := by
        cases ds with
        | nil => exact ⟨rfl, rfl⟩
        | cons d ds => simp [dotted_cons, skipWhile, hdot]
      have hname : keywordKind [ch 't'] = .identifier := by decide +kernel
      have hfree : isReservedKeyword [ch 't'] = false := by decide +kernel
      have halpha : isAlpha (ch 't') = true := by decide
      have hslash : (ch 't' == ch '/') = false := by decide
      simp [lexStep, lexToken, identifierItems, lexIdentifier, identifierItem, hrest, hname, hfree,
        halpha, hslash]
    rw [hturn]
    rfl
  rw [lexAll_eq, hname, lexRange_dotted hds]

end Eter.Lexer
