import Eter.LexerTurns

/-!
# A token alone and the same token in a text

A recogniser that makes a token of all bytes it is given makes the same token, further in, when
whitespace follows. Behind a line comment it takes a newline; quotes and block comments end by
themselves.
-/

namespace Eter.Lexer
open Scan Cursor

/-- The token `k` bytes further in. -/
def shift (k : ℕ) (t : Token) : Token :=
  ⟨t.tokenKind, ⟨t.tokenSpan.start + k, t.tokenSpan.end + k⟩⟩

/-- Where the recogniser makes one token, it makes that token further in, before a `stop` byte. -/
def Relocates (stop : UInt8 → Bool) (f : ℕ → Cur → List LexerItem × Cur) : Prop :=
  ∀ tokStart cur t cur' k d ds, f tokStart cur = ([.token t], cur') → stop d = true →
    f (tokStart + k) (cur.relocate k (d :: ds)) =
      ([.token (shift k t)], cur'.relocate k (d :: ds))

theorem not_of_isSpace {p : UInt8 → Bool}
    (h : p (ch ' ') = false ∧ p (ch '\t') = false ∧ p (ch '\n') = false ∧ p (ch '\r') = false) :
    ∀ d, isSpace d = true → p d = false := by
  intro d hd
  simp only [isSpace, Bool.or_eq_true, beq_iff_eq] at hd
  rcases hd with ((rfl | rfl) | rfl) | rfl
  · exact h.1
  · exact h.2.1
  · exact h.2.2.1
  · exact h.2.2.2

/-! ### Identifiers and symbols -/

theorem identifierItem_shift {tok t : Token} {text : Bytes} (k : ℕ)
    (h : identifierItem tok text = .token t) :
    identifierItem (shift k tok) text = .token (shift k t) := by
  unfold identifierItem at h ⊢
  by_cases hr : isReservedKeyword text = true
  · rw [if_pos hr] at h
    cases h
  · rw [if_neg hr] at h ⊢
    cases h
    rfl

theorem identifierItems_relocates (c : UInt8) :
    Relocates isSpace fun tokStart => identifierItems tokStart c := by
  intro tokStart cur t cur' k d ds h hd
  have hword : Delimited isSpace fun c : Cur =>
      (c.rest.takeWhile isIdentByte, skipWhile isIdentByte c.pos c.rest) :=
    skipWhile_delimited (not_of_isSpace (by decide))
  have hdel := hword cur k d ds hd
  simp only [Prod.mk.injEq] at hdel
  simp only [identifierItems, lexIdentifier, Prod.mk.injEq, List.cons.injEq, and_true] at h
  obtain ⟨hitem, rfl⟩ := h
  simp only [identifierItems, lexIdentifier, hdel.1, hdel.2]
  exact congrArg (fun it => ([it], _)) (identifierItem_shift k hitem)

theorem follow_delimited {alternatives : List (Char × Token.Kind)} (default : Token.Kind)
    (h : ∀ d, isSpace d = true → (alternatives.find? fun a => ch a.1 == d) = none) :
    Delimited isSpace (follow alternatives default) := by
  rw [follow_eq_takeIf]
  exact takeIf_delimited default fun d hd => by rw [h d hd]; rfl

theorem eq_not_space : ∀ d, isSpace d = true → (ch '=' == d) = false :=
  not_of_isSpace (by decide)

theorem afterShift_delimited (k₁ k₂ k₃ k₄ : Token.Kind) (doubled : Bool) :
    Delimited isSpace (afterShift k₁ k₂ k₃ k₄ doubled) := by
  cases doubled
  · exact follow_delimited _ fun d hd => by simp [eq_not_space d hd]
  · exact follow_delimited _ fun d hd => by simp [eq_not_space d hd]

theorem followShift_delimited {c : Char} (k₁ k₂ k₃ k₄ : Token.Kind)
    (h : ∀ d, isSpace d = true → (d == ch c) = false) :
    Delimited isSpace (followShift c k₁ k₂ k₃ k₄) := by
  rw [followShift_eq]
  refine Delimited.bind (g := afterShift k₁ k₂ k₃ k₄) (takeIf_delimited false fun d hd => ?_)
    (afterShift_delimited k₁ k₂ k₃ k₄)
  simp [h d hd]

theorem lexSymbol_delimited (c : UInt8) : Delimited isSpace (lexSymbol c) := by
  have hnone : ∀ alternatives : List (Char × Token.Kind),
      (alternatives.all fun a => !isSpace (ch a.1)) = true →
      ∀ d, isSpace d = true → (alternatives.find? fun a => ch a.1 == d) = none := by
    intro alternatives hall d hd
    rw [List.find?_eq_none]
    intro a ha heq
    have hspace := List.all_eq_true.mp hall a ha
    rw [beq_iff_eq.mp heq, hd] at hspace
    cases hspace
  unfold lexSymbol
  split <;> first
    | exact follow_delimited _ (hnone _ (by decide))
    | exact followShift_delimited _ _ _ _ (not_of_isSpace (by decide))
    | exact Delimited.pure _ _

theorem symbolItem_shift {kind : Token.Kind} {span : Span} {t : Token} (k : ℕ)
    (h : symbolItem kind span = .token t) :
    symbolItem kind ⟨span.start + k, span.end + k⟩ = .token (shift k t) := by
  unfold symbolItem at h ⊢
  split_ifs at h ⊢
  cases h
  rfl

theorem symbolItems_relocates (c : UInt8) :
    Relocates isSpace fun tokStart => symbolItems tokStart c := by
  intro tokStart cur t cur' k d ds h hd
  simp only [symbolItems, Prod.mk.injEq, List.cons.injEq, and_true] at h
  obtain ⟨hitem, rfl⟩ := h
  simp only [symbolItems, lexSymbol_delimited c cur k d ds hd]
  exact congrArg (fun it => ([it], _)) (symbolItem_shift k hitem)

/-! ### Numbers -/

theorem scanIntegerPart_relocate {d : UInt8} (hd : isSpace d = true) (isHex : Bool) (n : ℕ)
    (prev : Bool) (k pos : ℕ) (cs ds : Bytes) :
    scanIntegerPart isHex n prev (pos + k) (cs ++ d :: ds) =
      { scanIntegerPart isHex n prev pos cs with
        cur := (scanIntegerPart isHex n prev pos cs).cur.relocate k (d :: ds) } := by
  induction cs generalizing n prev pos with
  | nil =>
      have hhex := not_of_isSpace (p := isHexDigit) (by decide) d hd
      have hdig := not_of_isSpace (p := isDigit) (by decide) d hd
      have hund := not_of_isSpace (p := fun d => d == ch '_') (by decide) d hd
      simp [scanIntegerPart, hhex, hdig, hund, relocate]
  | cons c cs ih =>
      have hnext := fun n prev => ih n prev (pos + 1)
      simp only [Nat.add_right_comm pos 1 k] at hnext
      rw [List.cons_append]
      unfold scanIntegerPart
      split_ifs
      · exact hnext _ _
      · exact hnext _ _
      · rfl
      · exact hnext _ _
      · rfl

theorem scanFraction_relocate {d : UInt8} (hd : isSpace d = true) (k pos : ℕ) (cs ds : Bytes) :
    scanFraction (pos + k) (cs ++ d :: ds) = (scanFraction pos cs).relocate k (d :: ds) := by
  have hskip : Delimited isSpace fun c : Cur =>
      (c.rest.takeWhile fun c => isDigit c || c == ch '_',
        skipWhile (fun c => isDigit c || c == ch '_') c.pos c.rest) :=
    skipWhile_delimited (not_of_isSpace (by decide))
  have hsuffix : Delimited isSpace
      (takeIf (fun c => if c == ch 'f' then some true else none) false) :=
    takeIf_delimited false fun d hd => by
      simp [not_of_isSpace (p := fun d => d == ch 'f') (by decide) d hd]
  have h := (hskip.bind fun _ => hsuffix) ⟨pos, cs⟩ k d ds hd
  rw [scanFraction_eq_takeIf, scanFraction_eq_takeIf]
  exact (Prod.ext_iff.mp h).2

theorem lexFloatTail_relocate {d : UInt8} (hd : isSpace d = true) (cur : Cur) (k : ℕ)
    (ds : Bytes) :
    lexFloatTail (cur.relocate k (d :: ds)) =
      (lexFloatTail cur).map fun c => c.relocate k (d :: ds) := by
  obtain ⟨pos, rest⟩ := cur
  have hdot := not_of_isSpace (p := fun d => d == ch '.') (by decide) d hd
  have hf := not_of_isSpace (p := fun d => d == ch 'f') (by decide) d hd
  have hdig := not_of_isSpace (p := isDigit) (by decide) d hd
  cases rest with
  | nil => simp [lexFloatTail, relocate, hdot, hf]
  | cons c cs =>
      have hstart : startsWithDigit (cs ++ d :: ds) = startsWithDigit cs := by
        cases cs with
        | nil => exact hdig
        | cons e es => rfl
      have hfrac := scanFraction_relocate hd k (pos + 1) cs ds
      simp only [lexFloatTail, relocate, List.cons_append, hstart]
      split_ifs
      · rw [Nat.add_right_comm]
        exact congrArg some hfrac
      · simp [Nat.add_right_comm]
      · rfl

theorem finishNumericLiteral_relocate {d : UInt8} (hd : isSpace d = true) (tokStart k : ℕ)
    (isHex : Bool) (int : IntegerPart) (ds : Bytes) :
    finishNumericLiteral (tokStart + k) isHex
        { int with cur := int.cur.relocate k (d :: ds) } =
      ⟨(finishNumericLiteral tokStart isHex int).valid,
        shift k (finishNumericLiteral tokStart isHex int).token,
        (finishNumericLiteral tokStart isHex int).cur.relocate k (d :: ds)⟩ := by
  have htail := lexFloatTail_relocate hd int.cur k ds
  unfold finishNumericLiteral
  cases isHex with
  | true => rfl
  | false =>
      simp only [Bool.false_eq_true, if_false]
      cases hf : lexFloatTail int.cur with
      | none =>
          rw [hf] at htail
          rw [htail]
          rfl
      | some c =>
          rw [hf] at htail
          rw [htail]
          rfl

theorem numericItems_relocates (c : UInt8) :
    Relocates isSpace fun tokStart => numericItems tokStart c := by
  intro tokStart cur t cur' k d ds h hd
  have hradix : scanRadix c (cur.relocate k (d :: ds)) =
      ((scanRadix c cur).1, (scanRadix c cur).2.relocate k (d :: ds)) := by
    rw [scanRadix_eq_takeIf]
    refine takeIf_delimited false (fun d hd => ?_) cur k d ds hd
    have hx := not_of_isSpace (p := fun d => d == ch 'x' || d == ch 'X') (by decide) d hd
    simp [hx]
  have hint := scanIntegerPart_relocate hd (scanRadix c cur).1 0 false k (scanRadix c cur).2.pos
    (scanRadix c cur).2.rest ds
  simp only [numericItems, Prod.mk.injEq, List.cons.injEq, and_true] at h
  obtain ⟨hitem, rfl⟩ := h
  -- an early exit is no token
  have hearly : (scanIntegerPart (scanRadix c cur).1 0 false (scanRadix c cur).2.pos
      (scanRadix c cur).2.rest).early = false := by
    by_contra hne
    have he := Bool.eq_true_of_not_eq_false hne
    simp [lexNumericLiteral, he, numericItem] at hitem
  have hwhole : lexNumericLiteral (tokStart + k) c (cur.relocate k (d :: ds)) =
      ⟨(lexNumericLiteral tokStart c cur).valid, shift k (lexNumericLiteral tokStart c cur).token,
        (lexNumericLiteral tokStart c cur).cur.relocate k (d :: ds)⟩ := by
    simp only [lexNumericLiteral, hradix, relocate_pos, relocate_rest, hint, hearly,
      Bool.false_eq_true, if_false]
    exact finishNumericLiteral_relocate hd tokStart k _ _ ds
  simp only [numericItems, hwhole]
  unfold numericItem at hitem ⊢
  by_cases hv : (lexNumericLiteral tokStart c cur).valid = true
  · rw [if_pos hv] at hitem ⊢
    cases hitem
    rfl
  · rw [if_neg hv] at hitem
    cases hitem

/-! ### Quoted literals -/

theorem closeUnicodeEscape_relocate {escapeStart start : ℕ} {hasDigits : Bool} {cur cur' : Cur}
    (k : ℕ) (w : Bytes) (h : closeUnicodeEscape escapeStart hasDigits cur = ([], cur')) :
    closeUnicodeEscape start hasDigits (cur.relocate k w) = ([], cur'.relocate k w) := by
  obtain ⟨pos, rest⟩ := cur
  cases rest with
  | nil => simp [closeUnicodeEscape] at h
  | cons c cs =>
      simp only [closeUnicodeEscape, relocate, List.cons_append] at h ⊢
      split_ifs at h ⊢
      · simp only [Prod.mk.injEq, true_and] at h ⊢
        subst h
        simp [Nat.add_right_comm]
      · simp at h
      · simp at h

/-- A well-formed escape does not reach the end of the range. -/
theorem lexUnicodeEscape_relocate {escapeStart : ℕ} {cur cur' : Cur} (start k : ℕ) (w : Bytes)
    (h : lexUnicodeEscape escapeStart cur = some ([], cur')) :
    lexUnicodeEscape start (cur.relocate k w) = some ([], cur'.relocate k w) := by
  obtain ⟨pos, rest⟩ := cur
  match rest with
  | [] => cases h
  | [_] => cases h
  | u :: b :: cs =>
      simp only [lexUnicodeEscape, relocate, List.cons_append] at h ⊢
      split_ifs at h ⊢
      rw [Option.some.injEq] at h
      rcases hs : skipWhile isHexDigit (pos + 2) cs with ⟨q, rest⟩
      rw [hs] at h
      cases rest with
      | nil => simp [closeUnicodeEscape] at h
      | cons e es =>
          have hs' := skipWhile_relocate_of_rest (k := k) (w := w) hs
          have hcount : decide (pos + k + 2 < q + k) = decide (pos + 2 < q) := by
            rw [decide_eq_decide]
            omega
          rw [Nat.add_right_comm] at hs'
          simp only [hs', hcount]
          exact congrArg some (closeUnicodeEscape_relocate k w h)

theorem lexEscape_relocate {escapeStart chars : ℕ} {cur cur' : Cur} (start k : ℕ) (w : Bytes)
    (h : lexEscape escapeStart cur = .continue [] chars cur') :
    lexEscape start (cur.relocate k w) = .continue [] chars (cur'.relocate k w) := by
  obtain ⟨pos, rest⟩ := cur
  cases rest with
  | nil => cases h
  | cons next cs =>
      simp only [lexEscape] at h
      cases hu : lexUnicodeEscape escapeStart ⟨pos, next :: cs⟩ with
      | some r =>
          obtain ⟨errors, c⟩ := r
          rw [hu] at h
          cases h
          have hu' := lexUnicodeEscape_relocate start k w hu
          simp only [lexEscape, relocate, List.cons_append] at hu' ⊢
          rw [hu']
      | none =>
          rw [hu] at h
          dsimp only at h
          by_cases hsimple : isSimpleEscape next = true
          swap
          · rw [if_neg hsimple] at h
            cases h
          rw [if_pos hsimple] at h
          cases h
          have hnone : lexUnicodeEscape start (relocate ⟨pos, next :: cs⟩ k w) = none := by
            have hne : (next == ch 'u') = false := by
              by_contra hne
              obtain rfl : next = ch 'u' := by simpa using hne
              exact absurd hsimple (by decide)
            simp only [relocate, List.cons_append]
            cases hcs : cs ++ w with
            | nil => rfl
            | cons b bs => simp [lexUnicodeEscape, hne]
          simp only [lexEscape, relocate, List.cons_append] at hnone ⊢
          rw [hnone]
          simp [hsimple, Nat.add_right_comm]

theorem quotedTurn_relocate_continue {quote c : UInt8} {pos chars : ℕ} {cs : Bytes} {cur' : Cur}
    (k : ℕ) (w : Bytes) (h : quotedTurn quote pos c cs = .continue [] chars cur') :
    quotedTurn quote (pos + k) c (cs ++ w) = .continue [] chars (cur'.relocate k w) := by
  unfold quotedTurn at h ⊢
  rw [Nat.add_right_comm]
  split_ifs at h ⊢
  · exact lexEscape_relocate _ k w h
  · cases h
    rfl
  · cases h
    rfl

theorem quotedTurn_relocate_stop {quote c : UInt8} {pos : ℕ} {cs : Bytes} {cur' : Cur}
    (k : ℕ) (w : Bytes) (h : quotedTurn quote pos c cs = .stop true [] cur') :
    quotedTurn quote (pos + k) c (cs ++ w) = .stop true [] (cur'.relocate k w) := by
  unfold quotedTurn at h ⊢
  rw [Nat.add_right_comm]
  split_ifs at h ⊢
  · unfold lexEscape at h
    split at h
    · cases h
    · split at h
      · cases h
      · split_ifs at h
  · cases h
    rfl
  · cases h

theorem lexQuoted_items (quote : UInt8) (n : ℕ) (items : List LexerItem) (count : ℕ) (cur : Cur) :
    ∃ errors, (lexQuoted quote n items count cur).items = items ++ errors := by
  induction n generalizing items count cur with
  | zero => exact ⟨[], (List.append_nil items).symm⟩
  | succ n ih =>
      obtain ⟨pos, rest⟩ := cur
      cases rest with
      | nil => exact ⟨[], (List.append_nil items).symm⟩
      | cons c cs =>
          simp only [lexQuoted]
          cases quotedTurn quote pos c cs with
          | «continue» errors chars cur' =>
              obtain ⟨more, hmore⟩ := ih (items ++ errors) (count + chars) cur'
              exact ⟨errors ++ more, by rw [hmore, List.append_assoc]⟩
          | stop terminated errors cur' => exact ⟨errors, rfl⟩

/-- A literal that is terminated and has no errors ends at its closing quote. -/
theorem lexQuoted_relocate {quote : UInt8} {n m count chars : ℕ} {cur cur' : Cur} (k : ℕ)
    (w : Bytes) (h : lexQuoted quote n [] count cur = ⟨true, [], chars, cur'⟩) (hm : n ≤ m) :
    lexQuoted quote m [] count (cur.relocate k w) = ⟨true, [], chars, cur'.relocate k w⟩ := by
  induction n generalizing m count cur with
  | zero => cases h
  | succ n ih =>
      obtain ⟨m, rfl⟩ : ∃ m', m = m' + 1 := ⟨m - 1, by omega⟩
      obtain ⟨pos, rest⟩ := cur
      cases rest with
      | nil => cases h
      | cons c cs =>
          simp only [lexQuoted, List.nil_append] at h
          cases ht : quotedTurn quote pos c cs with
          | «continue» errors added d =>
              rw [ht] at h
              dsimp only at h
              obtain ⟨more, hmore⟩ := lexQuoted_items quote n errors (count + added) d
              rw [h] at hmore
              obtain rfl := (List.append_eq_nil_iff.mp hmore.symm).1
              have ht' := quotedTurn_relocate_continue k w ht
              simp only [lexQuoted, relocate, List.cons_append, ht', List.nil_append]
              exact ih h (by omega)
          | stop terminated errors d =>
              rw [ht] at h
              dsimp only at h
              cases h
              have ht' := quotedTurn_relocate_stop k w ht
              simp only [lexQuoted, relocate, List.cons_append, ht', List.nil_append]

/-- What the two kinds of literals share: `item` makes the token from how the loop ended. -/
theorem quotedItems_relocate (quote : UInt8) (item : Bool → ℕ → Span → LexerItem)
    (kind : Token.Kind)
    (hitem : ∀ b n span t, item b n span = .token t → b = true ∧ t = ⟨kind, span⟩ ∧
      ∀ span', item b n span' = .token ⟨kind, span'⟩)
    {tokStart : ℕ} {cur cur' : Cur} {t : Token} (k : ℕ) (w : Bytes)
    (h : ((lexQuoted quote cur.rest.length [] 0 cur).items ++
      [item (lexQuoted quote cur.rest.length [] 0 cur).terminated
        (lexQuoted quote cur.rest.length [] 0 cur).charCount
        ⟨tokStart, (lexQuoted quote cur.rest.length [] 0 cur).cur.pos⟩],
      (lexQuoted quote cur.rest.length [] 0 cur).cur) = ([.token t], cur')) :
    ∃ n, lexQuoted quote (cur.rest ++ w).length [] 0 (cur.relocate k w) =
        ⟨true, [], n, cur'.relocate k w⟩ ∧
      item true n ⟨tokStart + k, cur'.pos + k⟩ = .token (shift k t) := by
  rcases hq : lexQuoted quote cur.rest.length [] 0 cur with ⟨terminated, items, n, c⟩
  rw [hq] at h
  simp only [Prod.mk.injEq] at h
  obtain ⟨hitems, rfl⟩ := h
  have hsplit : items = [] ∧ item terminated n ⟨tokStart, c.pos⟩ = .token t := by
    cases items with
    | nil => exact ⟨rfl, by simpa using hitems⟩
    | cons it its => simp at hitems
  obtain ⟨rfl, htok⟩ := hsplit
  obtain ⟨rfl, rfl, hspan⟩ := hitem _ _ _ _ htok
  exact ⟨n, lexQuoted_relocate k w hq (by simp), hspan _⟩

theorem stringItems_relocate {tokStart : ℕ} {cur cur' : Cur} {t : Token} (k : ℕ) (w : Bytes)
    (h : stringItems tokStart cur = ([.token t], cur')) :
    stringItems (tokStart + k) (cur.relocate k w) =
      ([.token (shift k t)], cur'.relocate k w) := by
  have hstring : ∀ (b : Bool) (n : ℕ) (span : Span) (t : Token), stringItem b span = .token t →
      b = true ∧ t = ⟨.string_literal, span⟩ ∧
        ∀ span', stringItem b span' = .token ⟨.string_literal, span'⟩ := by
    intro b n span t ht
    cases b with
    | false => cases ht
    | true =>
        cases ht
        exact ⟨rfl, rfl, fun _ => rfl⟩
  obtain ⟨n, hq, hitem⟩ := quotedItems_relocate (ch '"') (fun b _ span => stringItem b span)
    .string_literal hstring k w h
  simp only [stringItems, lexStringLiteral, relocate_rest, hq, relocate_pos, List.nil_append]
  exact congrArg (fun it => ([it], _)) hitem

theorem characterItems_relocate {tokStart : ℕ} {cur cur' : Cur} {t : Token} (k : ℕ) (w : Bytes)
    (h : characterItems tokStart cur = ([.token t], cur')) :
    characterItems (tokStart + k) (cur.relocate k w) =
      ([.token (shift k t)], cur'.relocate k w) := by
  have hcharacter : ∀ (b : Bool) (n : ℕ) (span : Span) (t : Token),
      characterItem b n span = .token t → b = true ∧ t = ⟨.char_literal, span⟩ ∧
        ∀ span', characterItem b n span' = .token ⟨.char_literal, span'⟩ := by
    intro b n span t ht
    unfold characterItem at ht ⊢
    split_ifs at ht with hok
    cases ht
    simp only [Bool.and_eq_true] at hok
    exact ⟨hok.1, rfl, fun span' => by simp [hok.1, hok.2]⟩
  obtain ⟨n, hq, hitem⟩ := quotedItems_relocate (ch '\'') characterItem .char_literal hcharacter
    k w h
  simp only [characterItems, lexCharacterLiteral, relocate_rest, hq, relocate_pos, List.nil_append]
  exact congrArg (fun it => ([it], _)) hitem

/-! ### Comments -/

/-- A closed comment ends at its last mark. -/
theorem scanBlockComment_relocate {depth pos k : ℕ} {cs : Bytes} {cur' : Cur} (w : Bytes)
    (h : scanBlockComment depth pos cs = (0, cur')) :
    scanBlockComment depth (pos + k) (cs ++ w) = (0, cur'.relocate k w) := by
  fun_induction scanBlockComment depth pos cs with
  | case1 pos cs =>
      cases h
      simp [scanBlockComment, relocate]
  | case2 depth pos => cases h
  | case3 depth pos c => cases h
  | case4 depth pos c d cs hcd ih =>
      simp only [List.cons_append, scanBlockComment, hcd, if_true]
      rw [Nat.add_right_comm]
      exact ih h
  | case5 depth pos c d cs hcd hcd' ih =>
      simp only [List.cons_append, scanBlockComment, hcd, hcd', if_true]
      rw [Nat.add_right_comm]
      exact ih h
  | case6 depth pos c d cs hcd hcd' ih =>
      simp only [List.cons_append, scanBlockComment, hcd, hcd', Bool.false_eq_true, if_false]
      rw [Nat.add_right_comm]
      exact ih h

theorem blockCommentItems_relocate {tokStart : ℕ} {cur cur' : Cur} {t : Token} (k : ℕ) (w : Bytes)
    (h : blockCommentItems tokStart cur = ([.token t], cur')) :
    blockCommentItems (tokStart + k) (cur.relocate k w) =
      ([.token (shift k t)], cur'.relocate k w) := by
  rcases hb : scanBlockComment 1 cur.pos cur.rest with ⟨depth, c⟩
  simp only [blockCommentItems, hb] at h
  by_cases hd : (depth == 0) = true
  · obtain rfl : depth = 0 := by simpa using hd
    rw [if_pos hd] at h
    cases h
    have hb' := scanBlockComment_relocate (k := k) w hb
    simp only [blockCommentItems, relocate_pos, relocate_rest, hb']
    rfl
  · rw [if_neg hd] at h
    simp at h

theorem not_of_isNewline {p : UInt8 → Bool} (h : p (ch '\n') = false ∧ p (ch '\r') = false) :
    ∀ d, isNewline d = true → p d = false := by
  intro d hd
  simp only [isNewline, Bool.or_eq_true, beq_iff_eq] at hd
  rcases hd with rfl | rfl
  · exact h.1
  · exact h.2

theorem lexLineComment_relocate (tokStart : ℕ) (cur : Cur) (k : ℕ) {d : UInt8} (ds : Bytes)
    (hd : isNewline d = true) :
    lexLineComment (tokStart + k) (cur.relocate k (d :: ds)) =
      (shift k (lexLineComment tokStart cur).1,
        (lexLineComment tokStart cur).2.relocate k (d :: ds)) := by
  have hslash := not_of_isNewline (p := fun d => d == ch '/') (by decide) d hd
  have hline := not_of_isNewline (p := fun d => !isNewline d) (by decide) d hd
  have hbang : ∀ n, Delimited isNewline (scanBang n) := by
    intro n
    rw [scanBang_eq_takeIf]
    refine takeIf_delimited false fun d hd => ?_
    simp [not_of_isNewline (p := fun d => d == ch '!') (by decide) d hd]
  have hskip := skipWhile_relocate (p := fun c => c == ch '/') hslash k cur.pos cur.rest ds
  have hcount : ∀ q : ℕ, 2 + (q + k - (cur.pos + k)) = 2 + (q - cur.pos) := by
    intro q
    omega
  simp only [lexLineComment, relocate_pos, relocate_rest, hskip, hcount, hbang _ _ k d ds hd,
    restOfLine, skipWhile_relocate (p := fun c => !isNewline c) hline]
  rfl

/-! ### One turn -/

theorem lexToken_relocates (c : UInt8) : Relocates isSpace fun tokStart => lexToken tokStart c := by
  intro tokStart cur t cur' k d ds h hd
  simp only [lexToken] at h ⊢
  split_ifs at h ⊢
  · exact identifierItems_relocates c tokStart cur t cur' k d ds h hd
  · exact numericItems_relocates c tokStart cur t cur' k d ds h hd
  · exact stringItems_relocate k _ h
  · exact characterItems_relocate k _ h
  · exact symbolItems_relocates c tokStart cur t cur' k d ds h hd

/-- The bytes start a line comment. -/
def startsLineComment : Bytes → Bool
  | c :: d :: _ => c == ch '/' && d == ch '/'
  | _ => false

/-- A turn that makes one token makes it further in, before whitespace, which has to start with a
newline behind a line comment. -/
theorem lexStep_relocate {pos : ℕ} {c : UInt8} {cs : Bytes} {t : Token} {cur' : Cur} (k : ℕ)
    {d : UInt8} (ds : Bytes) (h : lexStep pos c cs = ([.token t], cur')) (hd : isSpace d = true)
    (hline : startsLineComment (c :: cs) = true → isNewline d = true) :
    lexStep (pos + k) c (cs ++ d :: ds) = ([.token (shift k t)], cur'.relocate k (d :: ds)) := by
  have htoken : ∀ {cur : Cur}, lexToken pos c cur = ([.token t], cur') →
      lexToken (pos + k) c (cur.relocate k (d :: ds)) =
        ([.token (shift k t)], cur'.relocate k (d :: ds)) :=
    fun {cur} h => lexToken_relocates c pos cur t cur' k d ds h hd
  unfold lexStep at h ⊢
  rw [Nat.add_right_comm]
  by_cases hslash : (c == ch '/') = true
  · simp only [hslash, if_true] at h ⊢
    cases cs with
    | nil =>
        have hstar := not_of_isSpace (p := fun d => d == ch '*') (by decide) d hd
        have hslash' := not_of_isSpace (p := fun d => d == ch '/') (by decide) d hd
        simp only [lexComment, List.nil_append, hstar, hslash', Bool.false_eq_true, if_false] at h ⊢
        exact htoken h
    | cons e es =>
        simp only [lexComment, List.cons_append] at h ⊢
        by_cases he : (e == ch '*') = true
        · simp only [he, if_true] at h ⊢
          rw [Nat.add_right_comm]
          exact blockCommentItems_relocate k _ h
        · by_cases he' : (e == ch '/') = true
          · simp only [he, he', if_true, Bool.false_eq_true, if_false] at h ⊢
            simp only [Prod.mk.injEq, List.cons.injEq, LexerItem.token.injEq, and_true] at h
            obtain ⟨rfl, rfl⟩ := h
            have hnew := hline (by simp [startsLineComment, hslash, he'])
            have hrel := lexLineComment_relocate pos ⟨pos + 1 + 1, es⟩ k ds hnew
            rw [Nat.add_right_comm (pos + 1) k 1]
            simp only [relocate] at hrel
            rw [hrel]
            rfl
          · simp only [he, he', Bool.false_eq_true, if_false] at h ⊢
            exact htoken h
  · simp only [hslash, Bool.false_eq_true, if_false] at h ⊢
    exact htoken h

end Eter.Lexer
