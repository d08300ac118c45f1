import Eter.LexerLoop

/-!
# What one turn of the lexer consumes and where its items lie

Every recogniser moves its cursor forward. One turn of the loop reads a non-empty word, and unless
it meets a numeric literal with adjacent underscores in its integer part, its items lie inside that
word and one of them spans all of it.
-/

namespace Eter.Lexer
open Scan Cursor

/-- Every item has a non-empty span inside `[lo, hi]`. -/
def Within (lo hi : ℕ) (items : List LexerItem) : Prop :=
  ∀ it ∈ items, lo ≤ it.span.start ∧ it.span.start < it.span.end ∧ it.span.end ≤ hi

@[simp] theorem within_nil (lo hi : ℕ) : Within lo hi [] := by simp [Within]

@[simp] theorem within_append (lo hi : ℕ) (xs ys : List LexerItem) :
    Within lo hi (xs ++ ys) ↔ Within lo hi xs ∧ Within lo hi ys :=
  List.forall_mem_append

theorem within_singleton (lo hi : ℕ) (it : LexerItem) :
    Within lo hi [it] ↔ lo ≤ it.span.start ∧ it.span.start < it.span.end ∧ it.span.end ≤ hi := by
  simp [Within]

theorem Within.mono {lo lo' hi hi' : ℕ} {items : List LexerItem} (h : Within lo hi items)
    (hlo : lo' ≤ lo) (hhi : hi ≤ hi') : Within lo' hi' items := by
  intro it hit
  have := h it hit
  omega

/-! ### Numbers -/

theorem scanIntegerPart_reads (isHex : Bool) (h : ℕ) (prev : Bool) (pos : ℕ) (cs : Bytes) :
    ∃ u, Reads ⟨pos, cs⟩ u (scanIntegerPart isHex h prev pos cs).cur := by
  induction cs generalizing h prev pos with
  | nil => exact ⟨[], Reads.refl _⟩
  | cons c cs ih =>
      have go : ∀ h' prev', ∃ u, Reads ⟨pos, c :: cs⟩ u
          (scanIntegerPart isHex h' prev' (pos + 1) cs).cur := by
        intro h' prev'
        obtain ⟨u, hu⟩ := ih h' prev' (pos + 1)
        exact ⟨_, (Reads.cons pos c cs).trans hu⟩
      rw [scanIntegerPart]
      split_ifs
      · exact go _ _
      · exact go _ _
      · exact ⟨[], Reads.refl _⟩
      · exact go _ _
      · exact ⟨[], Reads.refl _⟩

theorem scanRadix_reads (first : UInt8) : Advancing (scanRadix first) :=
  scanRadix_eq_takeIf first ▸ takeIf_advancing _ _

theorem scanFraction_reads (pos : ℕ) (rest : Bytes) :
    ∃ u, Reads ⟨pos, rest⟩ u (scanFraction pos rest) := by
  rw [scanFraction_eq_takeIf]
  obtain ⟨u, hu⟩ := takeIf_advancing (fun c => if c == ch 'f' then some true else none) false
    (skipWhile (fun c => isDigit c || c == ch '_') pos rest)
  exact ⟨_, (skipWhile_reads _ pos rest).trans hu⟩

theorem lexFloatTail_reads {cur cur' : Cur} (h : lexFloatTail cur = some cur') :
    ∃ u ≠ [], cur.Reads u cur' := by
  obtain ⟨pos, rest⟩ := cur
  cases rest with
  | nil => cases h
  | cons c cs =>
      simp only [lexFloatTail] at h
      split_ifs at h <;> cases h
      · obtain ⟨u, hu⟩ := scanFraction_reads (pos + 1) cs
        exact ⟨_, by simp, (Reads.cons pos c cs).trans hu⟩
      · exact ⟨_, by simp, Reads.cons pos c cs⟩

/-- A literal that was not left early spans from its start to the cursor. -/
theorem finishNumericLiteral_spec (tokStart : ℕ) (isHex : Bool) (int : IntegerPart) :
    (∃ u, int.cur.Reads u (finishNumericLiteral tokStart isHex int).cur) ∧
      (finishNumericLiteral tokStart isHex int).token.tokenSpan =
        ⟨tokStart, (finishNumericLiteral tokStart isHex int).cur.pos⟩ := by
  unfold finishNumericLiteral
  split
  · next cur hf =>
    split_ifs at hf
    obtain ⟨u, -, hu⟩ := lexFloatTail_reads hf
    exact ⟨⟨u, hu⟩, rfl⟩
  · exact ⟨⟨[], Reads.refl _⟩, rfl⟩

/-- The integer part of the literal starting with `c`, read as a number in its own radix, has two
adjacent underscores. -/
def DoubledSeparator (c : UInt8) (cs : Bytes) : Prop :=
  isDigit c = true ∧
    let radix := scanRadix c ⟨0, cs⟩
    let isPart := fun d => (if radix.1 then isHexDigit d else isDigit d) || d == ch '_'
    [ch '_', ch '_'] <:+: radix.2.rest.takeWhile isPart

instance (c : UInt8) (cs : Bytes) : Decidable (DoubledSeparator c cs) :=
  inferInstanceAs (Decidable (_ ∧ _))

theorem underscore_not_digit : isDigit (ch '_') = false := by decide

theorem underscore_not_hexDigit : isHexDigit (ch '_') = false := by decide

theorem pair_infix_cons {α : Type*} (a b : α) (l : List α) :
    [a, a] <:+: b :: l ↔ (b = a ∧ l.head? = some a) ∨ [a, a] <:+: l := by
  rw [List.infix_cons_iff, List.cons_prefix_cons]
  cases l with
  | nil => simp
  | cons d l => simp [List.cons_prefix_cons, eq_comm]

theorem pair_infix_cons_of_ne {α : Type*} {a b : α} (h : b ≠ a) (l : List α) :
    [a, a] <:+: b :: l ↔ [a, a] <:+: l := by
  rw [pair_infix_cons]
  simp [h]

/-- The loop is left early exactly at two adjacent underscores, the first of which may be the byte
before the loop. -/
theorem scanIntegerPart_early (isHex : Bool) (h : ℕ) (prev : Bool) (pos : ℕ) (cs : Bytes) :
    (scanIntegerPart isHex h prev pos cs).early = true ↔
      [ch '_', ch '_'] <:+: (if prev then [ch '_'] else []) ++
        cs.takeWhile fun d => (if isHex then isHexDigit d else isDigit d) || d == ch '_' := by
  induction cs generalizing h prev pos with
  | nil => cases prev <;> simp [scanIntegerPart, List.infix_cons_iff]
  | cons c cs ih =>
      by_cases hd : (if isHex then isHexDigit c else isDigit c) = true
      · -- a digit resets the separator flag
        have hne : c ≠ ch '_' := by
          rintro rfl
          cases isHex <;> simp [underscore_not_digit, underscore_not_hexDigit] at hd
        have hs : (scanIntegerPart isHex h prev pos (c :: cs)).early =
            (scanIntegerPart isHex (if isHex then h + 1 else h) false (pos + 1) cs).early := by
          cases isHex <;> simp_all [scanIntegerPart]
        rw [hs, ih, List.takeWhile_cons_of_pos (by simp [hd])]
        cases prev
        · simp [pair_infix_cons_of_ne hne]
        · simp [pair_infix_cons, hne]
      · have hd' : (if isHex then isHexDigit c else isDigit c) = false := by simpa using hd
        by_cases hu : c = ch '_'
        · subst hu
          have hs : scanIntegerPart isHex h prev pos (ch '_' :: cs) =
              if prev then ⟨true, h, prev, ⟨pos, ch '_' :: cs⟩⟩
              else scanIntegerPart isHex h true (pos + 1) cs := by
            cases isHex <;> simp [scanIntegerPart, underscore_not_digit, underscore_not_hexDigit]
          rw [hs, List.takeWhile_cons_of_pos (by simp)]
          cases prev
          · simp [ih]
          · simp [pair_infix_cons]
        · have hs : scanIntegerPart isHex h prev pos (c :: cs) = ⟨false, h, prev, ⟨pos, c :: cs⟩⟩ := by
            cases isHex <;> simp_all [scanIntegerPart]
          rw [hs, List.takeWhile_cons_of_neg (by simp [hd', hu])]
          cases prev <;> simp [List.infix_cons_iff]

/-- The radix does not depend on where the literal starts. -/
theorem scanRadix_pos (first : UInt8) (p q : ℕ) (cs : Bytes) :
    (scanRadix first ⟨p, cs⟩).1 = (scanRadix first ⟨q, cs⟩).1 ∧
      (scanRadix first ⟨p, cs⟩).2.rest = (scanRadix first ⟨q, cs⟩).2.rest := by
  cases cs with
  | nil => exact ⟨rfl, rfl⟩
  | cons c cs => simp only [scanRadix]; split_ifs <;> exact ⟨rfl, rfl⟩

theorem lexNumericLiteral_early (c : UInt8) (cs : Bytes) (p : ℕ)
    (hc : isDigit c = true) :
    (scanIntegerPart (scanRadix c ⟨p, cs⟩).1 0 false (scanRadix c ⟨p, cs⟩).2.pos
      (scanRadix c ⟨p, cs⟩).2.rest).early = true ↔ DoubledSeparator c cs := by
  rw [scanIntegerPart_early, DoubledSeparator, (scanRadix_pos c p 0 cs).1, (scanRadix_pos c p 0 cs).2]
  simp [hc]

theorem lexNumericLiteral_reads (tokStart : ℕ) (c : UInt8) (cur : Cur) :
    ∃ u, cur.Reads u (lexNumericLiteral tokStart c cur).cur := by
  obtain ⟨u, hu⟩ := scanRadix_reads c cur
  obtain ⟨v, hv⟩ := scanIntegerPart_reads (scanRadix c cur).1 0 false (scanRadix c cur).2.pos
    (scanRadix c cur).2.rest
  have huv := hu.trans hv
  rw [lexNumericLiteral]
  split_ifs
  · exact ⟨_, huv⟩
  · obtain ⟨w, hw⟩ := (finishNumericLiteral_spec tokStart (scanRadix c cur).1 _).1
    exact ⟨_, huv.trans hw⟩

theorem lexNumericLiteral_span (tokStart : ℕ) (c : UInt8) (p : ℕ) (cs : Bytes)
    (hc : isDigit c = true) (h : ¬ DoubledSeparator c cs) :
    (lexNumericLiteral tokStart c ⟨p, cs⟩).token.tokenSpan =
      ⟨tokStart, (lexNumericLiteral tokStart c ⟨p, cs⟩).cur.pos⟩ := by
  have he := mt (lexNumericLiteral_early c cs p hc).mp h
  rw [lexNumericLiteral]
  simp only [he, Bool.false_eq_true, if_false]
  exact (finishNumericLiteral_spec tokStart _ _).2

theorem lexNumericLiteral_doubled (tokStart : ℕ) (c : UInt8) (p : ℕ) (cs : Bytes)
    (h : DoubledSeparator c cs) :
    (lexNumericLiteral tokStart c ⟨p, cs⟩).valid = false ∧
      (lexNumericLiteral tokStart c ⟨p, cs⟩).token.tokenSpan = ⟨0, 0⟩ := by
  have he := (lexNumericLiteral_early c cs p h.1).mpr h
  rw [lexNumericLiteral]
  simp [he]

/-! ### String and character literals -/

theorem closeUnicodeEscape_spec {escapeStart : ℕ} (hasDigits : Bool) {cur : Cur}
    (hs : escapeStart < cur.pos) :
    (∃ u, cur.Reads u (closeUnicodeEscape escapeStart hasDigits cur).2) ∧
      Within escapeStart (closeUnicodeEscape escapeStart hasDigits cur).2.pos
        (closeUnicodeEscape escapeStart hasDigits cur).1 := by
  have hr := takeIf_advancing (fun c => if c == ch '}' then some true else none) false cur
  obtain ⟨u, hu⟩ := hr
  have hp := hu.pos_le
  rw [closeUnicodeEscape_eq]
  refine ⟨⟨u, hu⟩, ?_⟩
  dsimp only
  split_ifs
  · exact within_nil _ _
  · simp only [pushLexerError, within_singleton, LexerItem.span]
    omega

/-- An escape is at least `u` and the brace. -/
theorem lexUnicodeEscape_spec {escapeStart : ℕ} {cur cur' : Cur} {items : List LexerItem}
    (hs : escapeStart < cur.pos) (h : lexUnicodeEscape escapeStart cur = some (items, cur')) :
    (∃ u, 2 ≤ u.length ∧ cur.Reads u cur') ∧ Within escapeStart cur'.pos items := by
  unfold lexUnicodeEscape at h
  split at h
  · next u b cs hc =>
    obtain ⟨pos, rest⟩ := cur
    obtain rfl : rest = u :: b :: cs := hc
    dsimp only at h hs
    split_ifs at h
    have hd := ((Reads.cons pos u (b :: cs)).trans (Reads.cons (pos + 1) b cs)).trans
      (skipWhile_reads isHexDigit (pos + 2) cs)
    have hp := hd.pos_eq
    simp only [List.length_append, List.length_cons, List.length_nil] at hp
    have hs' : escapeStart < (skipWhile isHexDigit (pos + 2) cs).pos := by omega
    obtain ⟨⟨v, hv⟩, hw⟩ := closeUnicodeEscape_spec
      (decide (pos + 2 < (skipWhile isHexDigit (pos + 2) cs).pos)) hs'
    rw [Option.some.injEq] at h
    rw [h] at hv hw
    refine ⟨⟨_, ?_, hd.trans hv⟩, hw⟩
    simp only [List.length_append, List.length_cons, List.length_nil]
    omega
  · cases h

/-- The errors and the cursor of a turn. -/
def QuotedTurn.errors : QuotedTurn → List LexerItem
  | .continue errors _ _ => errors
  | .stop _ errors _ => errors

def QuotedTurn.cur : QuotedTurn → Cur
  | .continue _ _ cur => cur
  | .stop _ _ cur => cur

/-- Only at the end of the range does an escape consume nothing. -/
theorem lexEscape_spec (escapeStart : ℕ) (cur : Cur) (hs : escapeStart < cur.pos) :
    (∃ u, (u = [] → cur.rest = []) ∧ cur.Reads u (lexEscape escapeStart cur).cur) ∧
      Within escapeStart (lexEscape escapeStart cur).cur.pos (lexEscape escapeStart cur).errors := by
  unfold lexEscape
  split
  · next hc =>
    refine ⟨⟨[], fun _ => hc, Reads.refl _⟩, ?_⟩
    simp only [QuotedTurn.errors, QuotedTurn.cur, pushLexerError, within_singleton, LexerItem.span]
    omega
  · next next cs hc =>
    have hread : cur.Reads [next] ⟨cur.pos + 1, cs⟩ := ⟨hc, rfl⟩
    split
    · next he =>
      obtain ⟨⟨u, hl, hu⟩, hw⟩ := lexUnicodeEscape_spec hs he
      refine ⟨⟨u, ?_, hu⟩, hw⟩
      rintro rfl
      simp at hl
    · split_ifs
      · exact ⟨⟨_, by simp, hread⟩, within_nil _ _⟩
      · refine ⟨⟨_, by simp, hread⟩, ?_⟩
        simp only [QuotedTurn.errors, QuotedTurn.cur, pushLexerError, within_singleton,
          LexerItem.span]
        omega

theorem quotedTurn_spec (quote : UInt8) (pos : ℕ) (c : UInt8) (cs : Bytes) :
    (∃ u ≠ [], Reads ⟨pos, c :: cs⟩ u (quotedTurn quote pos c cs).cur) ∧
      Within pos (quotedTurn quote pos c cs).cur.pos (quotedTurn quote pos c cs).errors := by
  have hcons := Reads.cons pos c cs
  rw [quotedTurn]
  split_ifs
  · obtain ⟨⟨u, -, hu⟩, hw⟩ := lexEscape_spec pos ⟨pos + 1, cs⟩ (Nat.lt_succ_self pos)
    exact ⟨⟨_, by simp, hcons.trans hu⟩, hw⟩
  all_goals exact ⟨⟨_, by simp, hcons⟩, within_nil _ _⟩

theorem lexQuoted_reads (quote : UInt8) (fuel : ℕ) (items : List LexerItem) (count : ℕ) (cur : Cur) :
    ∃ u, cur.Reads u (lexQuoted quote fuel items count cur).cur := by
  induction fuel generalizing items count cur with
  | zero => exact ⟨[], Reads.refl _⟩
  | succ fuel ih =>
      obtain ⟨pos, rest⟩ := cur
      cases rest with
      | nil => exact ⟨[], Reads.refl _⟩
      | cons c cs =>
          obtain ⟨⟨u, _, hu⟩, -⟩ := quotedTurn_spec quote pos c cs
          simp only [lexQuoted]
          cases ht : quotedTurn quote pos c cs with
          | «continue» errors chars cur' =>
              rw [ht] at hu
              obtain ⟨v, hv⟩ := ih (items ++ errors) (count + chars) cur'
              exact ⟨_, hu.trans hv⟩
          | stop terminated errors cur' =>
              rw [ht] at hu
              exact ⟨u, hu⟩

theorem lexQuoted_within (quote : UInt8) (fuel : ℕ) (items : List LexerItem) (count lo : ℕ)
    (cur : Cur) (hw : Within lo cur.pos items) (hlo : lo ≤ cur.pos) :
    Within lo (lexQuoted quote fuel items count cur).cur.pos
      (lexQuoted quote fuel items count cur).items := by
  induction fuel generalizing items count cur with
  | zero => exact hw
  | succ fuel ih =>
      obtain ⟨pos, rest⟩ := cur
      cases rest with
      | nil => exact hw
      | cons c cs =>
          obtain ⟨⟨u, _, hu⟩, he⟩ := quotedTurn_spec quote pos c cs
          have hp := hu.pos_le
          have happ : Within lo (quotedTurn quote pos c cs).cur.pos
              (items ++ (quotedTurn quote pos c cs).errors) :=
            (within_append _ _ _ _).mpr ⟨hw.mono le_rfl hp, he.mono hlo le_rfl⟩
          simp only [lexQuoted]
          cases ht : quotedTurn quote pos c cs with
          | «continue» errors chars cur' =>
              rw [ht] at happ hp
              exact ih (items ++ errors) (count + chars) cur' happ (hlo.trans hp)
          | stop terminated errors cur' =>
              rw [ht] at happ
              exact happ

/-! ### Comments and symbols -/

theorem scanBlockComment_reads (depth pos : ℕ) (cs : Bytes) :
    ∃ u, Reads ⟨pos, cs⟩ u (scanBlockComment depth pos cs).2 := by
  fun_induction scanBlockComment depth pos cs with
  | case1 pos cs => exact ⟨[], Reads.refl _⟩
  | case2 depth pos => exact ⟨[], Reads.refl _⟩
  | case3 depth pos c => exact ⟨_, Reads.cons pos c []⟩
  | case4 depth pos c d cs _ ih =>
      obtain ⟨u, hu⟩ := ih
      exact ⟨_, ((Reads.cons pos c _).trans (Reads.cons (pos + 1) d cs)).trans hu⟩
  | case5 depth pos c d cs _ _ ih =>
      obtain ⟨u, hu⟩ := ih
      exact ⟨_, ((Reads.cons pos c _).trans (Reads.cons (pos + 1) d cs)).trans hu⟩
  | case6 depth pos c d cs _ _ ih =>
      obtain ⟨u, hu⟩ := ih
      exact ⟨_, (Reads.cons pos c _).trans hu⟩

theorem scanBang_reads (slashCount : ℕ) : Advancing (scanBang slashCount) :=
  scanBang_eq_takeIf slashCount ▸ takeIf_advancing _ _

theorem lexLineComment_spec (tokStart : ℕ) (cur : Cur) :
    (∃ u, cur.Reads u (lexLineComment tokStart cur).2) ∧
      (lexLineComment tokStart cur).1.tokenSpan =
        ⟨tokStart, (lexLineComment tokStart cur).2.pos⟩ := by
  have h₁ := skipWhile_reads (· == ch '/') cur.pos cur.rest
  obtain ⟨u, h₂⟩ := scanBang_reads
    (2 + ((skipWhile (· == ch '/') cur.pos cur.rest).pos - cur.pos))
    (skipWhile (· == ch '/') cur.pos cur.rest)
  exact ⟨⟨_, (h₁.trans h₂).trans (skipWhile_reads _ _ _)⟩, rfl⟩

theorem blockCommentItems_spec {tokStart : ℕ} {cur : Cur} (hs : tokStart < cur.pos) :
    (∃ u, cur.Reads u (blockCommentItems tokStart cur).2) ∧
      Within tokStart (blockCommentItems tokStart cur).2.pos (blockCommentItems tokStart cur).1 ∧
      ∃ it ∈ (blockCommentItems tokStart cur).1,
        it.span = ⟨tokStart, (blockCommentItems tokStart cur).2.pos⟩ := by
  obtain ⟨u, hu⟩ := scanBlockComment_reads 1 cur.pos cur.rest
  have hp := hu.pos_le
  dsimp only at hp
  unfold blockCommentItems
  dsimp only
  split_ifs
  · refine ⟨⟨u, hu⟩, ?_, ⟨_, List.mem_singleton_self _, rfl⟩⟩
    simp only [within_singleton, LexerItem.span]
    omega
  · refine ⟨⟨u, hu⟩, ?_, ⟨_, List.mem_cons_of_mem _ (List.mem_singleton_self _), rfl⟩⟩
    simp only [Within, List.forall_mem_cons, pushLexerError, LexerItem.span]
    simp only [List.not_mem_nil, false_implies, implies_true, and_true]
    omega

/-- A comment's items lie between its start and the cursor, and its token spans all of it. -/
theorem lexComment_spec {tokStart : ℕ} {cur cur' : Cur} {items : List LexerItem}
    (hs : tokStart < cur.pos) (h : lexComment tokStart cur = some (items, cur')) :
    (∃ u ≠ [], cur.Reads u cur') ∧ Within tokStart cur'.pos items ∧
      ∃ it ∈ items, it.span = ⟨tokStart, cur'.pos⟩ := by
  obtain ⟨pos, rest⟩ := cur
  cases rest with
  | nil => cases h
  | cons c cs =>
      have hc := Reads.cons pos c cs
      simp only [lexComment] at h
      dsimp only at hs
      split_ifs at h
      · have hs' : tokStart < (⟨pos + 1, cs⟩ : Cur).pos := Nat.lt_succ_of_lt hs
        obtain ⟨⟨u, hu⟩, hw⟩ := blockCommentItems_spec hs'
        rw [Option.some.injEq] at h
        rw [h] at hu hw
        exact ⟨⟨_, by simp, hc.trans hu⟩, hw⟩
      · obtain ⟨⟨u, hu⟩, hspan⟩ := lexLineComment_spec tokStart ⟨pos + 1, cs⟩
        have hp := hu.pos_le
        dsimp only at hp
        simp only [Option.some.injEq, Prod.mk.injEq] at h
        obtain ⟨rfl, rfl⟩ := h
        refine ⟨⟨_, by simp, hc.trans hu⟩, ?_, ⟨_, List.mem_singleton_self _, hspan⟩⟩
        simp only [within_singleton, LexerItem.span, hspan]
        omega

theorem follow_reads (alternatives : List (Char × Token.Kind)) (default : Token.Kind) :
    Advancing (follow alternatives default) :=
  follow_eq_takeIf alternatives default ▸ takeIf_advancing _ _

theorem afterShift_reads (k₁ k₂ k₃ k₄ : Token.Kind) (doubled : Bool) :
    Advancing (afterShift k₁ k₂ k₃ k₄ doubled) := by
  cases doubled
  · exact follow_reads _ _
  · exact follow_reads _ _

theorem followShift_reads (c : Char) (k₁ k₂ k₃ k₄ : Token.Kind) :
    Advancing (followShift c k₁ k₂ k₃ k₄) := by
  rw [followShift_eq]
  exact Advancing.bind (g := afterShift k₁ k₂ k₃ k₄) (takeIf_advancing _ _)
    (afterShift_reads k₁ k₂ k₃ k₄)

theorem lexSymbol_reads (c : UInt8) : Advancing (lexSymbol c) := by
  intro cur
  rw [lexSymbol]
  split <;> first
    | exact follow_reads _ _ _
    | exact followShift_reads _ _ _ _ _ _
    | exact ⟨[], Reads.refl _⟩

/-! ### One turn of the loop -/

/-- The items of a recogniser lie between `tokStart` and the cursor it leaves, and one of them
spans all of it. -/
structure Covers (tokStart : ℕ) (cur : Cur) (r : List LexerItem × Cur) : Prop where
  reads : ∃ u, cur.Reads u r.2
  within : Within tokStart r.2.pos r.1
  whole : ∃ it ∈ r.1, it.span = ⟨tokStart, r.2.pos⟩

theorem Covers.append {tokStart : ℕ} {cur cur' : Cur} {items : List LexerItem} {it : LexerItem}
    (hs : tokStart < cur.pos) (hr : ∃ u, cur.Reads u cur') (hw : Within tokStart cur'.pos items)
    (hit : it.span = ⟨tokStart, cur'.pos⟩) : Covers tokStart cur (items ++ [it], cur') := by
  obtain ⟨u, hu⟩ := hr
  have hp := hu.pos_le
  refine ⟨⟨u, hu⟩, (within_append _ _ _ _).mpr ⟨hw, (within_singleton _ _ _).mpr ?_⟩,
    ⟨it, by simp, hit⟩⟩
  simp only [hit]
  omega

theorem Covers.single {tokStart : ℕ} {cur cur' : Cur} {it : LexerItem} (hs : tokStart < cur.pos)
    (hr : ∃ u, cur.Reads u cur') (hit : it.span = ⟨tokStart, cur'.pos⟩) :
    Covers tokStart cur ([it], cur') :=
  Covers.append hs hr (within_nil _ _) hit

theorem identifierItem_span (token : Token) (text : Bytes) :
    (identifierItem token text).span = token.tokenSpan := by
  unfold identifierItem
  split_ifs <;> rfl

theorem numericItem_span (r : NumericLiteral) : (numericItem r).span = r.token.tokenSpan := by
  unfold numericItem
  split_ifs <;> rfl

theorem stringItem_span (terminated : Bool) (span : Span) :
    (stringItem terminated span).span = span := by
  unfold stringItem
  split_ifs <;> rfl

theorem characterItem_span (terminated : Bool) (charCount : ℕ) (span : Span) :
    (characterItem terminated charCount span).span = span := by
  unfold characterItem
  split_ifs <;> rfl

theorem symbolItem_span (kind : Token.Kind) (span : Span) : (symbolItem kind span).span = span := by
  unfold symbolItem
  split_ifs <;> rfl

theorem identifierItems_covers {tokStart : ℕ} (c : UInt8) {cur : Cur} (hs : tokStart < cur.pos) :
    Covers tokStart cur (identifierItems tokStart c cur) :=
  Covers.single hs ⟨_, skipWhile_reads isIdentByte cur.pos cur.rest⟩ (identifierItem_span _ _)

theorem numericItems_covers {tokStart p : ℕ} {c : UInt8} {cs : Bytes} (hs : tokStart < p)
    (hc : isDigit c = true) (h : ¬ DoubledSeparator c cs) :
    Covers tokStart ⟨p, cs⟩ (numericItems tokStart c ⟨p, cs⟩) := by
  have hspan := lexNumericLiteral_span tokStart c p cs hc h
  exact Covers.single hs (lexNumericLiteral_reads tokStart c ⟨p, cs⟩)
    ((numericItem_span _).trans hspan)

theorem stringItems_covers {tokStart : ℕ} {cur : Cur} (hs : tokStart < cur.pos) :
    Covers tokStart cur (stringItems tokStart cur) := by
  have hr := lexQuoted_reads (ch '"') cur.rest.length [] 0 cur
  have hw := lexQuoted_within (ch '"') cur.rest.length [] 0 tokStart cur (within_nil _ _) hs.le
  exact Covers.append hs hr hw (stringItem_span _ _)

theorem characterItems_covers {tokStart : ℕ} {cur : Cur} (hs : tokStart < cur.pos) :
    Covers tokStart cur (characterItems tokStart cur) := by
  have hr := lexQuoted_reads (ch '\'') cur.rest.length [] 0 cur
  have hw := lexQuoted_within (ch '\'') cur.rest.length [] 0 tokStart cur (within_nil _ _) hs.le
  exact Covers.append hs hr hw (characterItem_span _ _ _)

theorem symbolItems_covers {tokStart : ℕ} (c : UInt8) {cur : Cur} (hs : tokStart < cur.pos) :
    Covers tokStart cur (symbolItems tokStart c cur) :=
  Covers.single hs (lexSymbol_reads c cur) (symbolItem_span _ _)

theorem lexToken_covers {tokStart p : ℕ} {c : UInt8} {cs : Bytes} (hs : tokStart < p)
    (h : ¬ DoubledSeparator c cs) : Covers tokStart ⟨p, cs⟩ (lexToken tokStart c ⟨p, cs⟩) := by
  rw [lexToken]
  split_ifs with h₁ h₂
  · exact identifierItems_covers c hs
  · exact numericItems_covers hs h₂ h
  · exact stringItems_covers hs
  · exact characterItems_covers hs
  · exact symbolItems_covers c hs

theorem digit_not_slash {c : UInt8} (h : isDigit c = true) : (c == ch '/') = false := by
  by_contra hc
  obtain rfl : c = ch '/' := by simpa using hc
  exact absurd h (by decide)

theorem digit_not_identStart {c : UInt8} (h : isDigit c = true) :
    (isAlpha c || c == ch '_') = false := by
  have hc : c.toNat ≤ 57 := by
    simp only [isDigit, Bool.and_eq_true, decide_eq_true_eq] at h
    exact UInt8.le_iff_toNat_le.mp h.2
  have hne : c ≠ ch '_' := by
    rintro rfl
    exact absurd h (by decide)
  have ha : isAlpha c = false := by
    by_contra ha
    simp only [isAlpha, Bool.not_eq_false, Bool.or_eq_true, Bool.and_eq_true, decide_eq_true_eq,
      UInt8.le_iff_toNat_le] at ha
    have h97 : (ch 'a').toNat = 97 := by decide
    have h65 : (ch 'A').toNat = 65 := by decide
    omega
  simp [ha, hne]

theorem lexStep_covers {pos : ℕ} {c : UInt8} {cs : Bytes} (h : ¬ DoubledSeparator c cs) :
    Covers pos ⟨pos + 1, cs⟩ (lexStep pos c cs) := by
  simp only [lexStep]
  split
  · next r hr =>
    split_ifs at hr
    obtain ⟨items, cur'⟩ := r
    obtain ⟨⟨u, -, hu⟩, hw, hwhole⟩ := lexComment_spec (Nat.lt_succ_self pos) hr
    exact ⟨⟨u, hu⟩, hw, hwhole⟩
  · exact lexToken_covers (Nat.lt_succ_self pos) h

/-- The defect of the numeric recogniser: the error carries the span the token was built with. -/
theorem lexStep_doubled {pos : ℕ} {c : UInt8} {cs : Bytes} (h : DoubledSeparator c cs) :
    (lexStep pos c cs).1 = [.error ⟨.InvalidNumericLiteral, ⟨0, 0⟩⟩] ∧
      ∃ u, Reads ⟨pos + 1, cs⟩ u (lexStep pos c cs).2 := by
  obtain ⟨hv, hspan⟩ := lexNumericLiteral_doubled pos c (pos + 1) cs h
  have hstep : lexStep pos c cs = numericItems pos c ⟨pos + 1, cs⟩ := by
    simp [lexStep, lexToken, digit_not_slash h.1, digit_not_identStart h.1, h.1]
  rw [hstep]
  simp only [numericItems, numericItem, hv, hspan, Bool.false_eq_true, if_false, true_and]
  exact lexNumericLiteral_reads pos c ⟨pos + 1, cs⟩

/-- A turn reads its first byte and perhaps more. -/
theorem lexStep_reads (pos : ℕ) (c : UInt8) (cs : Bytes) :
    ∃ u, Reads ⟨pos, c :: cs⟩ (c :: u) (lexStep pos c cs).2 := by
  have hrest : ∃ u, Reads ⟨pos + 1, cs⟩ u (lexStep pos c cs).2 := by
    by_cases h : DoubledSeparator c cs
    · exact (lexStep_doubled h).2
    · exact (lexStep_covers h).reads
  obtain ⟨u, hu⟩ := hrest
  exact ⟨u, (Reads.cons pos c cs).trans hu⟩

end Eter.Lexer
