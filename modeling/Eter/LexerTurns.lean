import Eter.LexerProgress

/-!
# The turns of the main loop

The loop consumes a byte in every turn, so the length of the range is fuel enough and the loop
satisfies the equation of the unbounded one.
-/

namespace Eter.Lexer
open Scan Cursor

theorem skipWhitespace_reads (cur : Cur) :
    ∃ u, cur.Reads u (skipWhitespace cur) ∧ ∀ d ∈ u, isSpace d = true :=
  ⟨_, skipWhile_reads isSpace cur.pos cur.rest, fun _ hd => List.mem_takeWhile_imp hd⟩

theorem skipWhitespace_head {cur : Cur} {pos : ℕ} {c : UInt8} {cs : Bytes}
    (h : skipWhitespace cur = ⟨pos, c :: cs⟩) : isSpace c = false := by
  have hr : cur.rest.dropWhile isSpace = c :: cs := by
    rw [← skipWhile_rest isSpace cur.pos, ← skipWhitespace, h]
  have hc := List.dropWhile_get_zero_not isSpace cur.rest (by simp [hr])
  simpa [hr] using hc

/-- A turn leaves fewer bytes than it found. -/
theorem turn_length_lt {cur : Cur} {pos : ℕ} {c : UInt8} {cs : Bytes}
    (h : skipWhitespace cur = ⟨pos, c :: cs⟩) :
    (lexStep pos c cs).2.rest.length < cur.rest.length := by
  obtain ⟨u, hu, -⟩ := skipWhitespace_reads cur
  obtain ⟨v, hv⟩ := lexStep_reads pos c cs
  rw [h] at hu
  have h₁ := hu.length_eq
  have h₂ := hv.length_eq
  simp only [List.length_cons] at h₁ h₂
  omega

theorem lexLoop_fuel (n m : ℕ) (cur : Cur) (hn : cur.rest.length ≤ n) (hm : cur.rest.length ≤ m) :
    lexLoop n cur = lexLoop m cur := by
  induction n generalizing m cur with
  | zero =>
      obtain ⟨pos, rest⟩ := cur
      obtain rfl : rest = [] := List.length_eq_zero_iff.mp (by simpa using hn)
      cases m <;> simp [lexLoop, skipWhitespace, skipWhile]
  | succ n ih =>
      rcases hs : skipWhitespace cur with ⟨pos, rest⟩
      cases rest with
      | nil =>
          cases m with
          | zero => simp [lexLoop, hs]
          | succ m => simp [lexLoop, hs]
      | cons c cs =>
          have hlt := turn_length_lt hs
          cases m with
          | zero => omega
          | succ m =>
              simp only [lexLoop, hs]
              rw [ih m _ (by omega) (by omega)]

/-- The loop ends at the end of the range. -/
theorem lexRange_stop {cur : Cur} {pos : ℕ} (h : skipWhitespace cur = ⟨pos, []⟩) :
    lexRange cur = [] := by
  rw [lexRange]
  cases cur.rest.length with
  | zero => rfl
  | succ n => simp [lexLoop, h]

/-- The equation of the unbounded loop. -/
theorem lexRange_turn {cur : Cur} {pos : ℕ} {c : UInt8} {cs : Bytes}
    (h : skipWhitespace cur = ⟨pos, c :: cs⟩) :
    lexRange cur = (lexStep pos c cs).1 ++ lexRange (lexStep pos c cs).2 := by
  have hlt := turn_length_lt h
  rw [lexRange, lexRange]
  rcases hl : cur.rest.length with _ | n
  · omega
  · simp only [lexLoop, h]
    rw [lexLoop_fuel n _ _ (by omega) le_rfl]

/-- Induction over the turns of the loop. -/
theorem turns_induction {P : Cur → Prop}
    (stop : ∀ cur pos, skipWhitespace cur = ⟨pos, []⟩ → P cur)
    (turn : ∀ cur pos c cs, skipWhitespace cur = ⟨pos, c :: cs⟩ → P (lexStep pos c cs).2 → P cur)
    (cur : Cur) : P cur := by
  induction hn : cur.rest.length using Nat.strong_induction_on generalizing cur with
  | _ n ih =>
      rcases hs : skipWhitespace cur with ⟨pos, rest⟩
      cases rest with
      | nil => exact stop cur pos hs
      | cons c cs => exact turn cur pos c cs hs (ih _ (hn ▸ turn_length_lt hs) _ rfl)

/-- The loop started at a cursor has a turn at `pos` with first byte `c` and `cs` behind it. -/
inductive TurnAt : Cur → ℕ → UInt8 → Bytes → Prop where
  | here {cur : Cur} {pos : ℕ} {c : UInt8} {cs : Bytes}
      (h : skipWhitespace cur = ⟨pos, c :: cs⟩) : TurnAt cur pos c cs
  | later {cur : Cur} {pos p : ℕ} {c d : UInt8} {cs ds : Bytes}
      (h : skipWhitespace cur = ⟨pos, c :: cs⟩) (ht : TurnAt (lexStep pos c cs).2 p d ds) :
      TurnAt cur p d ds

/-- The items of a turn are items of the run. -/
theorem TurnAt.items_mem {cur : Cur} {pos : ℕ} {c : UInt8} {cs : Bytes} (h : TurnAt cur pos c cs) :
    ∀ it ∈ (lexStep pos c cs).1, it ∈ lexRange cur := by
  induction h with
  | here h =>
      intro it hit
      rw [lexRange_turn h]
      exact List.mem_append_left _ hit
  | later h _ ih =>
      intro it hit
      rw [lexRange_turn h]
      exact List.mem_append_right _ (ih it hit)

/-! ### Only the entry point makes end-of-file tokens -/

def NoEof (items : List LexerItem) : Prop := ∀ it ∈ items, it.isEof = false

theorem noEof_nil : NoEof [] := by simp [NoEof]

theorem noEof_append {xs ys : List LexerItem} : NoEof (xs ++ ys) ↔ NoEof xs ∧ NoEof ys :=
  List.forall_mem_append

theorem noEof_error (e : LexerError) : NoEof [.error e] := by simp [NoEof, LexerItem.isEof]

theorem noEof_token {k : Token.Kind} {s : Span} (h : k ≠ .eof) : NoEof [.token ⟨k, s⟩] := by
  simp [NoEof, LexerItem.isEof, h]

theorem ignoringEof_of_noEof {items : List LexerItem} (h : NoEof items) :
    ignoringEof items = items := by
  rw [ignoringEof, List.filter_eq_self]
  intro it hit
  simp [h it hit]

theorem keywordKind_ne_eof (text : Bytes) : keywordKind text ≠ .eof := by
  rw [keywordKind]
  split
  · next k hk =>
    have hm := List.mem_of_find?_eq_some hk
    revert hm
    generalize k = k'
    revert k'
    decide
  · decide

theorem follow_ne_eof {alternatives : List (Char × Token.Kind)} {default : Token.Kind} (cur : Cur)
    (ha : ∀ a ∈ alternatives, a.2 ≠ .eof) (hd : default ≠ .eof) :
    (follow alternatives default cur).1 ≠ .eof := by
  rw [follow]
  split
  · split
    · next a hf => exact ha a (List.mem_of_find?_eq_some hf)
    · exact hd
  · exact hd

theorem followShift_ne_eof {c : Char} {k₁ k₂ k₃ k₄ : Token.Kind} (cur : Cur) (h₁ : k₁ ≠ .eof)
    (h₂ : k₂ ≠ .eof) (h₃ : k₃ ≠ .eof) (h₄ : k₄ ≠ .eof) :
    (followShift c k₁ k₂ k₃ k₄ cur).1 ≠ .eof := by
  rw [followShift]
  split
  · split_ifs
    · exact follow_ne_eof _ (by simpa using h₁) h₂
    · exact follow_ne_eof _ (by simpa using h₃) h₄
  · exact h₄

theorem lexSymbol_ne_eof (c : UInt8) (cur : Cur) : (lexSymbol c cur).1 ≠ .eof := by
  rw [lexSymbol]
  split <;> first
    | exact follow_ne_eof _ (by decide) (by decide)
    | exact followShift_ne_eof _ (by decide) (by decide) (by decide) (by decide)
    | exact Token.Kind.noConfusion

theorem lexNumericLiteral_ne_eof (tokStart : ℕ) (c : UInt8) (cur : Cur) :
    (lexNumericLiteral tokStart c cur).token.tokenKind ≠ .eof := by
  rw [lexNumericLiteral]
  split_ifs
  · exact Token.Kind.noConfusion
  · unfold finishNumericLiteral
    split
    · exact Token.Kind.noConfusion
    · exact Token.Kind.noConfusion

theorem lexUnicodeEscape_noEof {escapeStart : ℕ} {cur cur' : Cur} {items : List LexerItem}
    (h : lexUnicodeEscape escapeStart cur = some (items, cur')) : NoEof items := by
  unfold lexUnicodeEscape at h
  split at h
  · dsimp only at h
    split_ifs at h
    rw [Option.some.injEq, closeUnicodeEscape_eq] at h
    cases h
    split_ifs
    · exact noEof_nil
    · exact noEof_error _
  · cases h

theorem quotedTurn_noEof (quote : UInt8) (pos : ℕ) (c : UInt8) (cs : Bytes) :
    NoEof (quotedTurn quote pos c cs).errors := by
  rw [quotedTurn, lexEscape]
  split_ifs
  · split
    · exact noEof_error _
    · split
      · next he => exact lexUnicodeEscape_noEof he
      · split_ifs
        · exact noEof_nil
        · exact noEof_error _
  all_goals exact noEof_nil

theorem lexQuoted_noEof (quote : UInt8) (fuel : ℕ) (items : List LexerItem) (count : ℕ) (cur : Cur)
    (h : NoEof items) : NoEof (lexQuoted quote fuel items count cur).items := by
  induction fuel generalizing items count cur with
  | zero => exact h
  | succ fuel ih =>
      rw [lexQuoted]
      split
      · exact h
      · next c cs _ =>
        have hq := quotedTurn_noEof quote cur.pos c cs
        split
        · next ht =>
          rw [ht] at hq
          exact ih _ _ _ (noEof_append.mpr ⟨h, hq⟩)
        · next ht =>
          rw [ht] at hq
          exact noEof_append.mpr ⟨h, hq⟩

theorem blockCommentItems_noEof (tokStart : ℕ) (cur : Cur) :
    NoEof (blockCommentItems tokStart cur).1 := by
  unfold blockCommentItems
  dsimp only
  split_ifs
  · exact noEof_token (by decide)
  · exact noEof_append.mpr ⟨noEof_error _, noEof_token (by decide)⟩

theorem lexComment_noEof {tokStart : ℕ} {cur cur' : Cur} {items : List LexerItem}
    (h : lexComment tokStart cur = some (items, cur')) : NoEof items := by
  rw [lexComment] at h
  split at h
  · next c cs _ =>
    dsimp only at h
    split_ifs at h
    · have hb := blockCommentItems_noEof tokStart ⟨cur.pos + 1, cs⟩
      rw [Option.some.injEq] at h
      rwa [h] at hb
    · cases h
      refine noEof_token ?_
      unfold lineCommentKind
      split_ifs <;> decide
  · cases h

theorem lexToken_noEof (tokStart : ℕ) (c : UInt8) (cur : Cur) :
    NoEof (lexToken tokStart c cur).1 := by
  unfold lexToken
  split_ifs
  · simp only [identifierItems, identifierItem]
    split_ifs
    · exact noEof_error _
    · exact noEof_token (keywordKind_ne_eof _)
  · simp only [numericItems, numericItem]
    split_ifs
    · exact noEof_token (lexNumericLiteral_ne_eof _ _ _)
    · exact noEof_error _
  · refine noEof_append.mpr ⟨lexQuoted_noEof (ch '"') _ [] 0 cur noEof_nil, ?_⟩
    unfold stringItem
    split_ifs
    · exact noEof_token (by decide)
    · exact noEof_error _
  · refine noEof_append.mpr ⟨lexQuoted_noEof (ch '\'') _ [] 0 cur noEof_nil, ?_⟩
    unfold characterItem
    split_ifs
    · exact noEof_token (by decide)
    all_goals exact noEof_error _
  · simp only [symbolItems, symbolItem]
    split_ifs
    · exact noEof_error _
    · exact noEof_token (lexSymbol_ne_eof _ _)
    · exact noEof_error _

theorem lexStep_noEof (pos : ℕ) (c : UInt8) (cs : Bytes) : NoEof (lexStep pos c cs).1 := by
  simp only [lexStep]
  split
  · next r hr =>
    split_ifs at hr
    exact lexComment_noEof hr
  · exact lexToken_noEof _ _ _

theorem lexRange_noEof (cur : Cur) : NoEof (lexRange cur) := by
  induction cur using turns_induction with
  | stop cur pos h => rw [lexRange_stop h]; exact noEof_nil
  | turn cur pos c cs h ih =>
      rw [lexRange_turn h]
      exact noEof_append.mpr ⟨lexStep_noEof _ _ _, ih⟩

/-- Without end-of-file tokens, lexing a valid range is the loop over it. -/
theorem ignoringEof_lex {buffer : Bytes} {range : Span} (h : ValidRange buffer range) :
    ignoringEof (lex buffer range) = lexRange (rangeStart buffer range) := by
  have heof : ignoringEof (eofItems buffer range) = [] := by
    rw [eofItems]
    split_ifs <;> rfl
  rw [lex, if_pos h, ignoringEof, List.filter_append]
  change ignoringEof _ ++ ignoringEof _ = _
  rw [ignoringEof_of_noEof (lexRange_noEof _), heof, List.append_nil]

end Eter.Lexer
