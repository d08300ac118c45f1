import Eter.LexerProgress

/-!
# The recognisers do not depend on what lies behind the bytes they consume

Each recogniser looks a byte or two past its token, and each look-ahead stops at the end of the
range. When the range ends earlier, but not before the end of the token, the recogniser takes the
same decisions. A rejected numeric literal is the exception: an underscore at the end of the range
is not the underscore before another one.
-/

namespace Eter.Lexer
open Scan Cursor

/-! ### Symbols and line comments -/

theorem follow_endLocal (alternatives : List (Char × Token.Kind)) (default : Token.Kind) :
    EndLocal (follow alternatives default) :=
  follow_eq_takeIf alternatives default ▸ takeIf_endLocal _ _

theorem afterShift_endLocal (k₁ k₂ k₃ k₄ : Token.Kind) (doubled : Bool) :
    EndLocal (afterShift k₁ k₂ k₃ k₄ doubled) := by
  cases doubled
  · exact follow_endLocal _ _
  · exact follow_endLocal _ _

theorem followShift_endLocal (c : Char) (k₁ k₂ k₃ k₄ : Token.Kind) :
    EndLocal (followShift c k₁ k₂ k₃ k₄) := by
  rw [followShift_eq]
  exact EndLocal.bind (g := afterShift k₁ k₂ k₃ k₄) (takeIf_endLocal _ _)
    (afterShift_endLocal k₁ k₂ k₃ k₄) (afterShift_reads k₁ k₂ k₃ k₄)

theorem lexSymbol_endLocal (c : UInt8) : EndLocal (lexSymbol c) := by
  unfold lexSymbol
  split <;> first
    | exact follow_endLocal _ _
    | exact followShift_endLocal _ _ _ _ _
    | exact EndLocal.pure _

theorem symbolItems_endLocal (tokStart : ℕ) (c : UInt8) : EndLocal (symbolItems tokStart c) :=
  (lexSymbol_endLocal c).map fun _ kind p => [symbolItem kind ⟨tokStart, p⟩]

theorem identifierItems_endLocal (tokStart : ℕ) (c : UInt8) :
    EndLocal (identifierItems tokStart c) :=
  (skipWhile_endLocal isIdentByte).map fun _ u p =>
    [identifierItem ⟨keywordKind (c :: u), ⟨tokStart, p⟩⟩ (c :: u)]

theorem restOfLine_reads (tokStart : ℕ) (kind : Token.Kind) :
    Advancing (restOfLine tokStart kind) :=
  fun _ => ⟨_, skipWhile_reads _ _ _⟩

/-- The line comment as three scanners in a row: slashes, `!`, the rest of the line. -/
theorem lexLineComment_endLocal (tokStart : ℕ) : EndLocal (lexLineComment tokStart) := by
  have hslashes := (skipWhile_endLocal (· == ch '/')).map fun p _ q => 2 + (q - p)
  have hbang : ∀ n, EndLocal fun c : Cur =>
      (lineCommentKind n (scanBang n c).1, (scanBang n c).2) := fun n =>
    EndLocal.map (scanBang_eq_takeIf n ▸ takeIf_endLocal _ _) fun _ b _ => lineCommentKind n b
  have hbangReads : ∀ n, Advancing fun c : Cur =>
      (lineCommentKind n (scanBang n c).1, (scanBang n c).2) := fun n => scanBang_reads n
  have hline : ∀ kind, EndLocal (restOfLine tokStart kind) := fun kind =>
    (skipWhile_endLocal fun c => !isNewline c).map fun _ _ q => Token.mk kind ⟨tokStart, q⟩
  exact hslashes.bind (fun n => (hbang n).bind hline (restOfLine_reads tokStart))
    fun n => (hbangReads n).bind (restOfLine_reads tokStart)

/-! ### Block comments -/

/-- An open comment consumes a byte if there is one. -/
theorem scanBlockComment_moves (depth pos : ℕ) (c : UInt8) (cs : Bytes) :
    pos < (scanBlockComment (depth + 1) pos (c :: cs)).2.pos := by
  cases cs with
  | nil => simp [scanBlockComment]
  | cons d ds =>
      simp only [scanBlockComment]
      split_ifs
      · obtain ⟨u, hu⟩ := scanBlockComment_reads (depth + 2) (pos + 2) ds
        have := hu.pos_le
        dsimp only at this
        omega
      · obtain ⟨u, hu⟩ := scanBlockComment_reads depth (pos + 2) ds
        have := hu.pos_le
        dsimp only at this
        omega
      · obtain ⟨u, hu⟩ := scanBlockComment_reads (depth + 1) (pos + 1) (d :: ds)
        have := hu.pos_le
        dsimp only at this
        omega

/-- An open comment that consumes nothing stands at the end of the range. -/
theorem scanBlockComment_stuck {depth pos : ℕ} {w : Bytes} {r : ℕ × Cur}
    (h : scanBlockComment (depth + 1) pos w = (r.1, r.2.extend w)) :
    w = [] ∧ r = (depth + 1, ⟨pos, []⟩) := by
  obtain ⟨u, hu⟩ := scanBlockComment_reads (depth + 1) pos w
  rw [h] at hu
  obtain ⟨-, hr⟩ := hu.of_extend_nil
  cases w with
  | nil =>
      simp only [scanBlockComment, Prod.mk.injEq] at h
      exact ⟨rfl, Prod.ext h.1.symm hr⟩
  | cons c cs =>
      have hm := scanBlockComment_moves depth pos c cs
      rw [h, hr] at hm
      exact absurd hm (lt_irrefl _)

theorem scanBlockComment_local (depth pos : ℕ) (cs w : Bytes) (r : ℕ × Cur)
    (h : scanBlockComment depth pos (cs ++ w) = (r.1, r.2.extend w)) :
    scanBlockComment depth pos cs = r := by
  fun_induction scanBlockComment depth pos cs with
  | case1 pos cs =>
      simp only [scanBlockComment, Prod.mk.injEq] at h
      exact Prod.ext h.1 (extend_injective h.2)
  | case2 depth pos => exact (scanBlockComment_stuck h).2.symm
  | case3 depth pos c =>
      cases w with
      | nil =>
          simpa [scanBlockComment, extend_nil] using h
      | cons d ds =>
          simp only [List.cons_append, List.nil_append, scanBlockComment] at h
          have short : ∀ n, ¬ scanBlockComment n (pos + 2) ds = (r.1, r.2.extend (d :: ds)) := by
            intro n hn
            obtain ⟨u, hu⟩ := scanBlockComment_reads n (pos + 2) ds
            have hl := hu.length_eq
            simp only [hn, extend_rest, List.length_append, List.length_cons] at hl
            omega
          split_ifs at h
          · exact absurd h (short _)
          · exact absurd h (short _)
          · exact absurd (scanBlockComment_stuck h).1 (List.cons_ne_nil _ _)
  | case4 depth pos c d cs hcd ih =>
      simp only [List.cons_append, scanBlockComment, hcd, if_true] at h
      exact ih h
  | case5 depth pos c d cs hcd hcd' ih =>
      simp only [List.cons_append, scanBlockComment, hcd, hcd', if_true] at h
      exact ih h
  | case6 depth pos c d cs hcd hcd' ih =>
      simp only [List.cons_append, scanBlockComment, hcd, hcd'] at h
      exact ih h

theorem blockCommentItems_endLocal (tokStart : ℕ) : EndLocal (blockCommentItems tokStart) := by
  have hbody : EndLocal fun c : Cur => scanBlockComment 1 c.pos c.rest := fun c w b c' h =>
    scanBlockComment_local 1 c.pos c.rest w (b, c') h
  have h := hbody.map fun _ depth p =>
    let token := LexerItem.token ⟨.comment, ⟨tokStart, p⟩⟩
    if depth == 0 then [token] else [pushLexerError .UnterminatedBlockComment tokStart p, token]
  dsimp only at h
  convert h using 2 with cur
  simp only [blockCommentItems]
  split_ifs <;> rfl

/-- A comment stays one, and what is none stays none. -/
theorem lexComment_local {tokStart : ℕ} {cur c' : Cur} {w : Bytes} {items : List LexerItem}
    (hs : tokStart < cur.pos)
    (h : lexComment tokStart (cur.extend w) = some (items, c'.extend w)) :
    lexComment tokStart cur = some (items, c') := by
  obtain ⟨⟨u, hne, hu⟩, -⟩ := lexComment_spec (show tokStart < (cur.extend w).pos from hs) h
  obtain ⟨pos, rest⟩ := cur
  cases rest with
  | nil => exact absurd hu.of_extend_nil.1 hne
  | cons c cs =>
      simp only [lexComment, extend, List.cons_append] at h ⊢
      split_ifs at h with h₁ h₂
      · rw [Option.some.injEq] at h
        rw [if_pos h₁, blockCommentItems_endLocal tokStart ⟨pos + 1, cs⟩ w items c' h]
      · simp only [Option.some.injEq, Prod.mk.injEq] at h
        have hl := lexLineComment_endLocal tokStart ⟨pos + 1, cs⟩ w _ c' (Prod.ext rfl h.2)
        rw [if_neg h₁, if_pos h₂, hl, ← h.1]
        rfl

theorem lexComment_none_local {tokStart : ℕ} {cur : Cur} {w : Bytes}
    (h : lexComment tokStart (cur.extend w) = none) : lexComment tokStart cur = none := by
  obtain ⟨pos, rest⟩ := cur
  cases rest with
  | nil => rfl
  | cons c cs =>
      simp only [lexComment, extend, List.cons_append] at h ⊢
      split_ifs at h with h₁ h₂
      rw [if_neg h₁, if_neg h₂]

/-! ### String and character literals -/

def QuotedTurn.extend (w : Bytes) : QuotedTurn → QuotedTurn
  | .continue errors chars cur => .continue errors chars (cur.extend w)
  | .stop terminated errors cur => .stop terminated errors (cur.extend w)

theorem QuotedTurn.cur_extend (t : QuotedTurn) (w : Bytes) : (t.extend w).cur = t.cur.extend w := by
  cases t <;> rfl

theorem QuotedTurn.extend_injective {t t' : QuotedTurn} {w : Bytes} (h : t.extend w = t'.extend w) :
    t = t' := by
  cases t <;> cases t'
  · simp only [QuotedTurn.extend, QuotedTurn.continue.injEq] at h
    rw [h.1, h.2.1, Cursor.extend_injective h.2.2]
  · cases h
  · cases h
  · simp only [QuotedTurn.extend, QuotedTurn.stop.injEq] at h
    rw [h.1, h.2.1, Cursor.extend_injective h.2.2]

theorem closeUnicodeEscape_endLocal (escapeStart : ℕ) (hasDigits : Bool) :
    EndLocal (closeUnicodeEscape escapeStart hasDigits) := by
  rw [closeUnicodeEscape_eq]
  exact (takeIf_endLocal _ _).map fun _ closed p =>
    if closed && hasDigits then [] else [pushLexerError .InvalidUnicodeEscape escapeStart p]

theorem closeUnicodeEscape_reads (escapeStart : ℕ) (hasDigits : Bool) :
    Advancing (closeUnicodeEscape escapeStart hasDigits) := by
  rw [closeUnicodeEscape_eq]
  exact takeIf_advancing _ _

theorem lexUnicodeEscape_local {escapeStart : ℕ} {cur c' : Cur} {w : Bytes}
    {items : List LexerItem} (hs : escapeStart < cur.pos)
    (h : lexUnicodeEscape escapeStart (cur.extend w) = some (items, c'.extend w)) :
    lexUnicodeEscape escapeStart cur = some (items, c') := by
  obtain ⟨⟨v, hv, hr⟩, -⟩ :=
    lexUnicodeEscape_spec (show escapeStart < (cur.extend w).pos from hs) h
  have hl := hr.length_eq
  obtain ⟨pos, rest⟩ := cur
  match rest with
  | [] =>
      simp only [extend_rest, List.nil_append, List.length_append] at hl
      omega
  | [u] =>
      simp only [extend_rest, List.cons_append, List.nil_append, List.length_append,
        List.length_cons] at hl
      omega
  | u :: b :: cs =>
      simp only [lexUnicodeEscape, extend, List.cons_append] at h ⊢
      split_ifs at h with hub
      rw [Option.some.injEq] at h
      have hdigits := (skipWhile_endLocal isHexDigit).map fun p _ q => decide (p < q)
      have hbody := hdigits.bind (closeUnicodeEscape_endLocal escapeStart)
        (closeUnicodeEscape_reads escapeStart)
      rw [if_pos hub]
      exact congrArg some (hbody ⟨pos + 2, cs⟩ w items c' h)

/-- When the escape is none in the longer range it is none in the shorter one. -/
theorem lexUnicodeEscape_none_local {escapeStart : ℕ} {cur : Cur} {w : Bytes}
    (h : lexUnicodeEscape escapeStart (cur.extend w) = none) :
    lexUnicodeEscape escapeStart cur = none := by
  obtain ⟨pos, rest⟩ := cur
  match rest with
  | [] => rfl
  | [_] => rfl
  | u :: b :: cs =>
      simp only [lexUnicodeEscape, extend, List.cons_append] at h ⊢
      split_ifs at h with hub
      rw [if_neg hub]

theorem lexEscape_local {escapeStart : ℕ} {cur : Cur} {w : Bytes} {t : QuotedTurn}
    (hs : escapeStart < cur.pos) (h : lexEscape escapeStart (cur.extend w) = t.extend w) :
    lexEscape escapeStart cur = t := by
  obtain ⟨⟨u, hne, hu⟩, -⟩ := lexEscape_spec escapeStart (cur.extend w) hs
  rw [h, QuotedTurn.cur_extend] at hu
  obtain ⟨pos, rest⟩ := cur
  cases rest with
  | nil =>
      obtain rfl : w = [] := hne hu.of_extend_nil.1
      rw [extend_nil] at h
      rw [h]
      cases t <;> simp [QuotedTurn.extend, extend_nil]
  | cons next cs =>
      cases he : lexUnicodeEscape escapeStart ((⟨pos, next :: cs⟩ : Cur).extend w) with
      | some r =>
          obtain ⟨errors, d⟩ := r
          have ht : t.extend w = .continue errors 1 d := by
            rw [← h]
            simp only [lexEscape, extend_rest, List.cons_append, he]
          cases t with
          | stop terminated errs cur' => cases ht
          | «continue» errs chars cur' =>
              simp only [QuotedTurn.extend, QuotedTurn.continue.injEq] at ht
              obtain ⟨rfl, rfl, rfl⟩ := ht
              simp only [lexEscape, lexUnicodeEscape_local hs he]
      | none =>
          have hn := lexUnicodeEscape_none_local he
          apply QuotedTurn.extend_injective (w := w)
          rw [← h]
          simp only [lexEscape, extend_rest, List.cons_append, he, hn]
          split_ifs <;> rfl

theorem quotedTurn_local {quote : UInt8} {pos : ℕ} {c : UInt8} {cs w : Bytes} {t : QuotedTurn}
    (h : quotedTurn quote pos c (cs ++ w) = t.extend w) : quotedTurn quote pos c cs = t := by
  unfold quotedTurn at h ⊢
  by_cases h₁ : (c == ch '\\') = true
  · rw [if_pos h₁] at h ⊢
    exact lexEscape_local (show pos < (⟨pos + 1, cs⟩ : Cur).pos from Nat.lt_succ_self pos) h
  · apply QuotedTurn.extend_injective (w := w)
    rw [if_neg h₁] at h ⊢
    rw [← h]
    split_ifs <;> rfl

/-- At the end of the shorter range the loop stops, or it would consume a byte of `w`. -/
theorem lexQuoted_stuck {quote : UInt8} {n pos count : ℕ} {items : List LexerItem} {w : Bytes}
    {c' : Cur} (hn : w.length ≤ n)
    (h : (lexQuoted quote n items count ⟨pos, w⟩).cur = c'.extend w) : w = [] := by
  cases w with
  | nil => rfl
  | cons c cs =>
      cases n with
      | zero => simp at hn
      | succ n =>
          obtain ⟨⟨u, hne, hu⟩, -⟩ := quotedTurn_spec quote pos c cs
          have hend : ∃ v, (quotedTurn quote pos c cs).cur.Reads v (c'.extend (c :: cs)) := by
            rw [← h]
            simp only [lexQuoted]
            cases quotedTurn quote pos c cs with
            | «continue» errors chars cur' => exact lexQuoted_reads _ _ _ _ _
            | stop terminated errors cur' => exact ⟨[], Reads.refl _⟩
          obtain ⟨v, hv⟩ := hend
          have hnil := (hu.trans hv).of_extend_nil.1
          exact absurd (List.append_eq_nil_iff.mp hnil).1 hne

/-- The shorter range also runs on its own fuel. -/
theorem lexQuoted_local (quote : UInt8) (n m : ℕ) (items : List LexerItem) (count : ℕ)
    (cur c' : Cur) (w : Bytes) (hn : (cur.rest ++ w).length ≤ n) (hm : cur.rest.length ≤ m)
    (h : (lexQuoted quote n items count (cur.extend w)).cur = c'.extend w) :
    lexQuoted quote m items count cur =
      { lexQuoted quote n items count (cur.extend w) with cur := c' } := by
  induction n generalizing m items count cur with
  | zero =>
      obtain ⟨pos, rest⟩ := cur
      obtain ⟨rfl, rfl⟩ := List.append_eq_nil_iff.mp (List.length_eq_zero_iff.mp (Nat.le_zero.mp hn))
      have hc : (⟨pos, []⟩ : Cur) = c' := extend_injective (w := []) h
      cases m <;> simp [lexQuoted, hc]
  | succ n ih =>
      obtain ⟨pos, rest⟩ := cur
      cases rest with
      | nil =>
          obtain rfl := lexQuoted_stuck (by simpa using hn) h
          rw [extend_nil] at h ⊢
          have hc : (⟨pos, []⟩ : Cur) = c' := by simpa [lexQuoted, extend_nil] using h
          cases m <;> simp [lexQuoted, hc]
      | cons c cs =>
          cases m with
          | zero => simp at hm
          | succ m =>
              obtain ⟨⟨u, hne, hu⟩, -⟩ := quotedTurn_spec quote pos c (cs ++ w)
              simp only [lexQuoted, extend, List.cons_append] at h ⊢
              cases ht : quotedTurn quote pos c (cs ++ w) with
              | stop terminated errors d =>
                  simp only [ht] at h ⊢
                  have hloc : quotedTurn quote pos c cs = .stop terminated errors c' :=
                    quotedTurn_local (w := w) (by rw [ht, h]; rfl)
                  simp only [hloc]
              | «continue» errors chars d =>
                  simp only [ht] at h ⊢
                  rw [ht] at hu
                  obtain ⟨v, hv⟩ := lexQuoted_reads quote n (items ++ errors) (count + chars) d
                  rw [h] at hv
                  have hd := hv.factor
                  have hloc : quotedTurn quote pos c cs =
                      .continue errors chars ⟨d.pos, v ++ c'.rest⟩ :=
                    quotedTurn_local (w := w) (by rw [ht, hd]; rfl)
                  have hlen := hu.length_eq
                  have hu1 := List.length_pos_iff.mpr hne
                  rw [QuotedTurn.cur, hd] at hlen
                  simp only [extend_rest, List.length_append, List.length_cons] at hlen hn hm
                  simp only [hloc]
                  rw [hd] at h ⊢
                  exact ih m _ _ ⟨d.pos, v ++ c'.rest⟩
                    (by simp only [List.length_append]; omega)
                    (by simp only [List.length_append]; omega) h

theorem lexQuoted_endLocal (quote : UInt8) : EndLocal fun cur : Cur =>
    (((lexQuoted quote cur.rest.length [] 0 cur).terminated,
      (lexQuoted quote cur.rest.length [] 0 cur).items,
      (lexQuoted quote cur.rest.length [] 0 cur).charCount),
      (lexQuoted quote cur.rest.length [] 0 cur).cur) := by
  intro cur w b c' h
  simp only [Prod.mk.injEq] at h ⊢
  rw [lexQuoted_local quote _ _ [] 0 cur c' w le_rfl le_rfl h.2]
  exact ⟨h.1, rfl⟩

theorem stringItems_endLocal (tokStart : ℕ) : EndLocal (stringItems tokStart) :=
  (lexQuoted_endLocal (ch '"')).map fun _ r p => r.2.1 ++ [stringItem r.1 ⟨tokStart, p⟩]

theorem characterItems_endLocal (tokStart : ℕ) : EndLocal (characterItems tokStart) :=
  (lexQuoted_endLocal (ch '\'')).map fun _ r p =>
    r.2.1 ++ [characterItem r.1 r.2.2 ⟨tokStart, p⟩]

/-! ### Numbers -/

def NoInvalidNumericLiteral (items : List LexerItem) : Prop :=
  ∀ s, .error ⟨.InvalidNumericLiteral, s⟩ ∉ items

theorem scanIntegerPart_local (isHex : Bool) (n : ℕ) (prev : Bool) (pos : ℕ) (cs w : Bytes)
    (n' : ℕ) (prev' : Bool) (c' : Cur)
    (h : scanIntegerPart isHex n prev pos (cs ++ w) = ⟨false, n', prev', c'.extend w⟩) :
    scanIntegerPart isHex n prev pos cs = ⟨false, n', prev', c'⟩ := by
  induction cs generalizing n prev pos with
  | nil =>
      obtain ⟨u, hu⟩ := scanIntegerPart_reads isHex n prev pos w
      rw [List.nil_append] at h
      rw [h] at hu
      obtain ⟨-, rfl⟩ := hu.of_extend_nil
      cases w with
      | nil => simpa [extend_nil] using h
      | cons d ds =>
          -- a digit or an underscore of `w` would move the cursor
          have stay : ∀ k q, scanIntegerPart isHex k q (pos + 1) ds ≠
              ⟨false, n', prev', (⟨pos, []⟩ : Cur).extend (d :: ds)⟩ := by
            intro k q hk
            obtain ⟨v, hv⟩ := scanIntegerPart_reads isHex k q (pos + 1) ds
            rw [hk] at hv
            have := hv.pos_le
            simp only [extend_pos] at this
            omega
          rw [scanIntegerPart] at h
          split_ifs at h
          · exact absurd h (stay _ _)
          · exact absurd h (stay _ _)
          · cases congrArg IntegerPart.early h
          · exact absurd h (stay _ _)
          · simp only [IntegerPart.mk.injEq] at h
            simp [scanIntegerPart, h.2.1, h.2.2.1]
  | cons c cs ih =>
      rw [List.cons_append, scanIntegerPart] at h
      rw [scanIntegerPart]
      split_ifs at h ⊢
      · exact ih _ _ _ h
      · exact ih _ _ _ h
      · cases congrArg IntegerPart.early h
      · exact ih _ _ _ h
      · simp only [IntegerPart.mk.injEq] at h ⊢
        exact ⟨trivial, h.2.1, h.2.2.1, extend_injective h.2.2.2⟩

theorem scanFraction_endLocal : EndLocal fun cur : Cur => ((), scanFraction cur.pos cur.rest) := by
  have hf : ∀ _u : Bytes, EndLocal fun cur : Cur =>
      ((), (takeIf (fun c => if c == ch 'f' then some true else none) false cur).2) := fun _ =>
    (takeIf_endLocal _ _).map fun _ _ _ => ()
  have ha : ∀ _u : Bytes, Advancing fun cur : Cur =>
      ((), (takeIf (fun c => if c == ch 'f' then some true else none) false cur).2) := fun _ =>
    takeIf_advancing _ _
  have h := (skipWhile_endLocal fun c => isDigit c || c == ch '_').bind hf ha
  simpa only [scanFraction_eq_takeIf] using h

/-- A fraction consumes its first digit. -/
theorem scanFraction_moves {pos : ℕ} {d : UInt8} (hd : isDigit d = true) (ds : Bytes) :
    pos < (scanFraction pos (d :: ds)).pos := by
  have hs : skipWhile (fun c => isDigit c || c == ch '_') pos (d :: ds) =
      skipWhile (fun c => isDigit c || c == ch '_') (pos + 1) ds := by
    simp [skipWhile, hd]
  obtain ⟨u, hu⟩ := scanFraction_reads (pos + 1) ds
  have hp := hu.pos_le
  rw [scanFraction_eq_takeIf] at hp ⊢
  rw [hs]
  exact hp

theorem lexFloatTail_local {cur c' : Cur} {w : Bytes}
    (h : lexFloatTail (cur.extend w) = some (c'.extend w)) : lexFloatTail cur = some c' := by
  obtain ⟨u, hne, hu⟩ := lexFloatTail_reads h
  obtain ⟨pos, rest⟩ := cur
  cases rest with
  | nil => exact absurd hu.of_extend_nil.1 hne
  | cons c cs =>
      simp only [lexFloatTail, extend, List.cons_append] at h ⊢
      split_ifs at h with hd hf
      · rw [Option.some.injEq] at h
        cases cs with
        | cons d ds =>
            have hs := scanFraction_endLocal ⟨pos + 1, d :: ds⟩ w () c' (Prod.ext rfl h)
            rw [if_pos (show (c == ch '.' && startsWithDigit (d :: ds)) = true from hd)]
            exact congrArg some (Prod.ext_iff.mp hs).2
        | nil =>
            -- the first digit of the fraction would lie in `w`
            cases w with
            | nil => simp [startsWithDigit] at hd
            | cons d ds =>
                simp only [List.nil_append, startsWithDigit, Bool.and_eq_true] at hd h
                have hm : pos + 1 < _ := scanFraction_moves hd.2 ds
                have hl := hu.length_eq
                have hp := hu.pos_eq
                simp only [extend_rest, extend_pos, List.length_append, List.length_cons,
                  List.length_nil] at hl hp
                rw [h] at hm
                dsimp only at hm
                omega
      · have hdot : (c == ch '.') = false := by
          obtain rfl : c = ch 'f' := by simpa using hf
          decide
        simp only [hdot, hf, Bool.false_and, Bool.false_eq_true, if_false, if_true,
          Option.some.injEq] at h ⊢
        exact extend_injective h

theorem lexFloatTail_none_local {cur : Cur} {w : Bytes} (h : lexFloatTail (cur.extend w) = none) :
    lexFloatTail cur = none := by
  obtain ⟨pos, rest⟩ := cur
  cases rest with
  | nil => rfl
  | cons c cs =>
      simp only [lexFloatTail, extend, List.cons_append] at h ⊢
      split_ifs at h with hd hf
      rw [if_neg _, if_neg hf]
      cases cs with
      | nil => simp [startsWithDigit]
      | cons d ds => exact hd

theorem finishNumericLiteral_local {tokStart n : ℕ} {isHex early prev : Bool} {cur c' : Cur}
    {w : Bytes}
    (h : (finishNumericLiteral tokStart isHex ⟨early, n, prev, cur.extend w⟩).cur = c'.extend w) :
    finishNumericLiteral tokStart isHex ⟨early, n, prev, cur⟩ =
      { finishNumericLiteral tokStart isHex ⟨early, n, prev, cur.extend w⟩ with cur := c' } := by
  unfold finishNumericLiteral at h ⊢
  cases isHex with
  | true =>
      obtain rfl := extend_injective h
      rfl
  | false =>
      cases hf : lexFloatTail (cur.extend w) with
      | some d =>
          simp only [hf, Bool.false_eq_true, if_false] at h
          subst h
          simp [lexFloatTail_local hf]
      | none =>
          simp only [hf, Bool.false_eq_true, if_false] at h
          obtain rfl := extend_injective h
          simp [lexFloatTail_none_local hf]

/-- A valid literal is not left early, so the shorter range reads the same integer part. -/
theorem lexNumericLiteral_local {tokStart : ℕ} {c : UInt8} {cur c' : Cur} {w : Bytes}
    (hv : (lexNumericLiteral tokStart c (cur.extend w)).valid = true)
    (hc : (lexNumericLiteral tokStart c (cur.extend w)).cur = c'.extend w) :
    lexNumericLiteral tokStart c cur =
      { lexNumericLiteral tokStart c (cur.extend w) with cur := c' } := by
  rcases hr : scanRadix c (cur.extend w) with ⟨isHex, d⟩
  rcases hi : scanIntegerPart isHex 0 false d.pos d.rest with ⟨early, n, prev, e⟩
  have hwhole : lexNumericLiteral tokStart c (cur.extend w) =
      if early then ⟨false, ⟨.integer_literal, ⟨0, 0⟩⟩, e⟩
      else finishNumericLiteral tokStart isHex ⟨early, n, prev, e⟩ := by
    simp only [lexNumericLiteral, hr, hi]
  have hearly : early = false := by
    by_contra he
    rw [hwhole, if_pos (by simpa using he)] at hv
    cases hv
  subst hearly
  rw [hwhole] at hc ⊢
  simp only [Bool.false_eq_true, if_false] at hc ⊢
  obtain ⟨u, hu⟩ := (finishNumericLiteral_spec tokStart isHex ⟨false, n, prev, e⟩).1
  rw [hc] at hu
  obtain ⟨e', rfl⟩ : ∃ e', e = extend e' w := ⟨_, hu.factor⟩
  obtain ⟨v, hv'⟩ := scanIntegerPart_reads isHex 0 false d.pos d.rest
  rw [hi] at hv'
  obtain ⟨d', rfl⟩ : ∃ d', d = extend d' w := ⟨_, hv'.factor⟩
  have hr' : scanRadix c cur = (isHex, d') :=
    (scanRadix_eq_takeIf c ▸ takeIf_endLocal _ _ : EndLocal (scanRadix c)) _ _ _ _ hr
  have hi' := scanIntegerPart_local isHex 0 false d'.pos d'.rest w n prev e' hi
  simp only [lexNumericLiteral, hr', hi', Bool.false_eq_true, if_false]
  exact finishNumericLiteral_local hc

theorem numericItems_local {tokStart : ℕ} {c : UInt8} {cur c' : Cur} {w : Bytes}
    {items : List LexerItem} (h : numericItems tokStart c (cur.extend w) = (items, c'.extend w))
    (hv : NoInvalidNumericLiteral items) :
    numericItems tokStart c cur = (items, c') := by
  simp only [numericItems, Prod.mk.injEq] at h ⊢
  have hvalid : (lexNumericLiteral tokStart c (cur.extend w)).valid = true := by
    by_contra hn
    refine hv (lexNumericLiteral tokStart c (cur.extend w)).token.tokenSpan ?_
    simp [← h.1, numericItem, hn]
  rw [lexNumericLiteral_local hvalid h.2]
  exact ⟨h.1, rfl⟩

/-! ### One turn -/

theorem lexToken_local {tokStart : ℕ} {c : UInt8} {cur c' : Cur} {w : Bytes}
    {items : List LexerItem} (hv : NoInvalidNumericLiteral items)
    (h : lexToken tokStart c (cur.extend w) = (items, c'.extend w)) :
    lexToken tokStart c cur = (items, c') := by
  unfold lexToken at h ⊢
  split_ifs at h ⊢
  · exact identifierItems_endLocal tokStart c cur w items c' h
  · exact numericItems_local h hv
  · exact stringItems_endLocal tokStart cur w items c' h
  · exact characterItems_endLocal tokStart cur w items c' h
  · exact symbolItems_endLocal tokStart c cur w items c' h

/-- A turn that stops before `w` is the turn of the range without `w`. -/
theorem lexStep_local {pos : ℕ} {c : UInt8} {cs w : Bytes} {items : List LexerItem} {c' : Cur}
    (hv : NoInvalidNumericLiteral items) (h : lexStep pos c (cs ++ w) = (items, c'.extend w)) :
    lexStep pos c cs = (items, c') := by
  have hlt : pos < (⟨pos + 1, cs⟩ : Cur).pos := Nat.lt_succ_self pos
  simp only [lexStep] at h ⊢
  by_cases hslash : (c == ch '/') = true
  · rw [if_pos hslash] at h ⊢
    cases hcom : lexComment pos ⟨pos + 1, cs ++ w⟩ with
    | some r =>
        rw [hcom] at h
        obtain rfl : r = (items, c'.extend w) := h
        rw [lexComment_local hlt hcom]
    | none =>
        rw [hcom] at h
        rw [lexComment_none_local (w := w) hcom]
        exact lexToken_local hv h
  · rw [if_neg hslash] at h ⊢
    exact lexToken_local hv h

end Eter.Lexer
