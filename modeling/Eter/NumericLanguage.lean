import Eter.Separated
import Eter.LiteralTurns
import Eter.LexerRoundTrip

/-!
# The language of numeric literals

The recogniser checks its separators where it scans the integer part, and at the end of an integer.
It does not check them in a fraction, before a fraction, or before the suffix of a float.
-/

namespace Eter.Lexer
open Scan Cursor Separated

theorem digit_separator : isDigit (ch '_') = false := by decide

theorem hexDigit_separator : isHexDigit (ch '_') = false := by decide

/-! ### The languages -/

def decimals : Language UInt8 := separated isDigit (ch '_')

def integerLiterals : Language UInt8 :=
  decimals + {[ch '0']} * ({[ch 'x']} + {[ch 'X']}) *
    (next isHexDigit (ch '_') * KStar.kstar (next isHexDigit (ch '_')))

def floatLiterals : Language UInt8 :=
  decimals * {[ch '.']} * decimals * (1 + {[ch 'f']}) + decimals * {[ch 'f']}

/-! ### The integer part -/

/-- The digits and separators in front. -/
def run (p : UInt8 → Bool) (cs : Bytes) : Bytes := cs.takeWhile fun d => p d || d == ch '_'

def afterRun (p : UInt8 → Bool) (cs : Bytes) : Bytes := cs.dropWhile fun d => p d || d == ch '_'

theorem run_append_afterRun (p : UInt8 → Bool) (cs : Bytes) : run p cs ++ afterRun p cs = cs :=
  List.takeWhile_append_dropWhile

def digitOf (isHex : Bool) : UInt8 → Bool := if isHex then isHexDigit else isDigit

theorem digitOf_separator (isHex : Bool) : digitOf isHex (ch '_') = false := by
  cases isHex
  · exact digit_separator
  · exact hexDigit_separator

theorem getLast?_append_cons {α : Type*} {a sep : α} (h : a ≠ sep) (v w : List α) :
    (v ++ a :: w).getLast? = some sep ↔ w.getLast? = some sep := by
  rw [List.getLast?_append, List.getLast?_cons]
  cases hw : w.getLast? with
  | none => simp [h]
  | some b => simp

/-- What the loop over the integer part leaves when it was not left early. -/
theorem scanIntegerPart_run (isHex : Bool) (h : ℕ) (prev : Bool) (pos : ℕ) (cs : Bytes)
    (hearly : (scanIntegerPart isHex h prev pos cs).early = false) :
    scanIntegerPart isHex h prev pos cs = ⟨false,
      h + (if isHex then (run (digitOf isHex) cs).countP isHexDigit else 0),
      (((if prev then [ch '_'] else []) ++ run (digitOf isHex) cs).getLast? = some (ch '_')),
      ⟨pos + (run (digitOf isHex) cs).length, afterRun (digitOf isHex) cs⟩⟩ := by
  induction cs generalizing h prev pos with
  | nil => cases prev <;> cases isHex <;> simp [scanIntegerPart, run, afterRun]
  | cons c cs ih =>
    by_cases hd : digitOf isHex c = true
    · have hne : c ≠ ch '_' := by
        rintro rfl
        rw [digitOf_separator] at hd
        cases hd
      have hs : scanIntegerPart isHex h prev pos (c :: cs) =
          scanIntegerPart isHex (if isHex then h + 1 else h) false (pos + 1) cs := by
        cases isHex <;> simp_all [scanIntegerPart, digitOf]
      have hrun : run (digitOf isHex) (c :: cs) = c :: run (digitOf isHex) cs := by
        simp [run, hd]
      have hafter : afterRun (digitOf isHex) (c :: cs) = afterRun (digitOf isHex) cs := by
        simp [afterRun, hd]
      rw [hs] at hearly ⊢
      rw [ih _ _ _ hearly, hrun, hafter]
      simp only [getLast?_append_cons hne, Bool.false_eq_true, if_false, List.nil_append,
        List.length_cons, Nat.add_assoc, Nat.add_comm 1]
      cases isHex with
      | false => simp
      | true =>
        have hhex : isHexDigit c = true := hd
        simp only [if_true, List.countP_cons_of_pos hhex, IntegerPart.mk.injEq, true_and, and_true]
        omega
    · have hd' : digitOf isHex c = false := by simpa using hd
      by_cases hu : c = ch '_'
      · subst hu
        have hs : scanIntegerPart isHex h prev pos (ch '_' :: cs) =
            if prev then ⟨true, h, prev, ⟨pos, ch '_' :: cs⟩⟩
            else scanIntegerPart isHex h true (pos + 1) cs := by
          cases isHex <;> simp [scanIntegerPart, underscore_not_digit, underscore_not_hexDigit]
        rw [hs] at hearly ⊢
        cases prev with
        | true => cases hearly
        | false =>
          have hrun : run (digitOf isHex) (ch '_' :: cs) = ch '_' :: run (digitOf isHex) cs := by
            simp [run]
          have hafter : afterRun (digitOf isHex) (ch '_' :: cs) = afterRun (digitOf isHex) cs := by
            simp [afterRun]
          rw [if_neg (by decide)] at hearly ⊢
          rw [ih _ _ _ hearly, hrun, hafter]
          cases isHex <;>
            simp [underscore_not_hexDigit, Nat.add_assoc, Nat.add_comm 1]
      · have hs : scanIntegerPart isHex h prev pos (c :: cs) = ⟨false, h, prev, ⟨pos, c :: cs⟩⟩ := by
          cases isHex <;> simp_all [scanIntegerPart, digitOf]
        have hrun : run (digitOf isHex) (c :: cs) = [] := by simp [run, hd', hu]
        have hafter : afterRun (digitOf isHex) (c :: cs) = c :: cs := by
          simp [afterRun, hd', hu]
        rw [hs, hrun, hafter]
        cases prev <;> cases isHex <;> simp

/-! ### Literals -/

theorem scanRadix_decimal {c : UInt8} {cs : Bytes} (h : (scanRadix c ⟨0, cs⟩).1 = false) (p : ℕ) :
    scanRadix c ⟨p, cs⟩ = (false, ⟨p, cs⟩) := by
  cases cs with
  | nil => rfl
  | cons x hs =>
    unfold scanRadix at h ⊢
    dsimp only at h ⊢
    split_ifs at h ⊢
    rfl

theorem scanRadix_hex {c : UInt8} {cs : Bytes} (h : (scanRadix c ⟨0, cs⟩).1 = true) :
    c = ch '0' ∧ ∃ x hs, cs = x :: hs ∧ (x = ch 'x' ∨ x = ch 'X') ∧
      ∀ p, scanRadix c ⟨p, cs⟩ = (true, ⟨p + 1, hs⟩) := by
  cases cs with
  | nil => cases h
  | cons x hs =>
    unfold scanRadix at h
    dsimp only at h
    split_ifs at h with hx
    have hx' := hx
    simp only [Bool.and_eq_true, Bool.or_eq_true, beq_iff_eq] at hx'
    refine ⟨hx'.1, x, hs, rfl, hx'.2, fun p => ?_⟩
    unfold scanRadix
    dsimp only
    rw [if_pos hx]

/-- What stands behind a fraction. -/
def suffixOf (rest : Bytes) : Bytes := if rest.head? = some (ch 'f') then [ch 'f'] else []

/-- The literal that starts with the digit `c` has the bytes `u` behind it. -/
inductive Number (c : UInt8) (cs : Bytes) : Token.Kind → Bytes → Prop where
  | hex {x : UInt8} {hs : Bytes} (hr : (scanRadix c ⟨0, cs⟩).1 = true) (hcs : cs = x :: hs)
      (hne : run isHexDigit hs ≠ []) (htidy : Tidy isHexDigit (ch '_') (run isHexDigit hs)) :
      Number c cs .integer_literal (x :: run isHexDigit hs)
  | integer (hr : (scanRadix c ⟨0, cs⟩).1 = false)
      (hno : ∀ p, lexFloatTail ⟨p, afterRun isDigit cs⟩ = none)
      (htidy : Tidy isDigit (ch '_') (run isDigit cs)) :
      Number c cs .integer_literal (run isDigit cs)
  | suffixed {rest : Bytes} (hr : (scanRadix c ⟨0, cs⟩).1 = false)
      (hsingle : ¬ [ch '_', ch '_'] <:+: run isDigit cs)
      (hafter : afterRun isDigit cs = ch 'f' :: rest) :
      Number c cs .float_literal (run isDigit cs ++ [ch 'f'])
  | fraction {frac : Bytes} (hr : (scanRadix c ⟨0, cs⟩).1 = false)
      (hsingle : ¬ [ch '_', ch '_'] <:+: run isDigit cs)
      (hafter : afterRun isDigit cs = ch '.' :: frac) (hd : startsWithDigit frac = true) :
      Number c cs .float_literal (run isDigit cs ++ ch '.' ::
        (run isDigit frac ++ suffixOf (afterRun isDigit frac)))

theorem doubledSeparator_decimal {c : UInt8} {cs : Bytes} (hc : isDigit c = true)
    (h : (scanRadix c ⟨0, cs⟩).1 = false) :
    DoubledSeparator c cs ↔ [ch '_', ch '_'] <:+: run isDigit cs := by
  unfold DoubledSeparator
  dsimp only
  rw [scanRadix_decimal h]
  simp [hc, run]

theorem doubledSeparator_hex {c x : UInt8} {hs : Bytes} (hc : isDigit c = true)
    (h : (scanRadix c ⟨0, x :: hs⟩).1 = true) :
    DoubledSeparator c (x :: hs) ↔ [ch '_', ch '_'] <:+: run isHexDigit hs := by
  obtain ⟨-, x', hs', heq, -, hall⟩ := scanRadix_hex h
  cases heq
  unfold DoubledSeparator
  dsimp only
  rw [hall]
  simp [hc, run]

theorem lexNumericLiteral_decimal {c : UInt8} {cs : Bytes} (hc : isDigit c = true)
    (hr : (scanRadix c ⟨0, cs⟩).1 = false) (hsingle : ¬ [ch '_', ch '_'] <:+: run isDigit cs)
    (pos p : ℕ) : lexNumericLiteral pos c ⟨p, cs⟩ = finishNumericLiteral pos false
      ⟨false, 0, (run isDigit cs).getLast? = some (ch '_'),
        ⟨p + (run isDigit cs).length, afterRun isDigit cs⟩⟩ := by
  have hnot := mt (doubledSeparator_decimal hc hr).mp hsingle
  have hearly := mt (lexNumericLiteral_early c cs p hc).mp hnot
  rw [scanRadix_decimal hr, Bool.not_eq_true] at hearly
  unfold lexNumericLiteral
  dsimp only
  rw [scanRadix_decimal hr]
  dsimp only at hearly ⊢
  rw [if_neg (by simp [hearly]), scanIntegerPart_run _ _ _ _ _ hearly]
  rfl

theorem lexNumericLiteral_hex {c x : UInt8} {hs : Bytes} (hc : isDigit c = true)
    (hr : (scanRadix c ⟨0, x :: hs⟩).1 = true)
    (hsingle : ¬ [ch '_', ch '_'] <:+: run isHexDigit hs) (pos p : ℕ) :
    lexNumericLiteral pos c ⟨p, x :: hs⟩ = finishNumericLiteral pos true
      ⟨false, (run isHexDigit hs).countP isHexDigit, (run isHexDigit hs).getLast? = some (ch '_'),
        ⟨p + 1 + (run isHexDigit hs).length, afterRun isHexDigit hs⟩⟩ := by
  have hnot := mt (doubledSeparator_hex hc hr).mp hsingle
  have hearly := mt (lexNumericLiteral_early c (x :: hs) p hc).mp hnot
  obtain ⟨-, x', hs', heq, -, hall⟩ := scanRadix_hex hr
  cases heq
  rw [hall, Bool.not_eq_true] at hearly
  unfold lexNumericLiteral
  dsimp only
  rw [hall]
  dsimp only at hearly ⊢
  rw [if_neg (by simp [hearly]), scanIntegerPart_run _ _ _ _ _ hearly]
  simp [digitOf]

theorem run_all (p : UInt8 → Bool) (cs : Bytes) : ∀ d ∈ run p cs, p d = true ∨ d = ch '_' := by
  intro d hd
  have hmem := List.mem_takeWhile_imp hd
  simpa using hmem

/-- A tidy word has a symbol unless it is empty. -/
theorem countP_pos_of_tidy {p : UInt8 → Bool} {w : Bytes} (h : Tidy p (ch '_') w) (hne : w ≠ []) :
    0 < w.countP p := by
  obtain ⟨v, d, rfl⟩ : ∃ v d, w = v ++ [d] := by
    rcases List.eq_nil_or_concat w with hnil | ⟨v, d, hv⟩
    · exact (hne hnil).elim
    · exact ⟨v, d, by simpa using hv⟩
  have hd : p d = true := by
    rcases h.all d (by simp) with hd | rfl
    · exact hd
    · exact (h.last (by simp)).elim
  rw [List.countP_append]
  simp [hd]

theorem scanFraction_run (pos : ℕ) (frac : Bytes) : ∃ after,
    frac = run isDigit frac ++ suffixOf (afterRun isDigit frac) ++ after ∧
      scanFraction pos frac =
        ⟨pos + (run isDigit frac ++ suffixOf (afterRun isDigit frac)).length, after⟩ := by
  have hread := skipWhile_reads (fun d => isDigit d || d == ch '_') pos frac
  have hrest := skipWhile_rest (fun d => isDigit d || d == ch '_') pos frac
  unfold scanFraction
  dsimp only
  generalize hcur : skipWhile (fun d => isDigit d || d == ch '_') pos frac = cur at hread hrest
  obtain ⟨q, rest⟩ := cur
  have hq : q = pos + (run isDigit frac).length := hread.pos_eq
  have hrest' : rest = afterRun isDigit frac := hrest
  have hsplit := run_append_afterRun isDigit frac
  rw [← hrest'] at hsplit ⊢
  cases rest with
  | nil => exact ⟨[], by simpa [suffixOf] using hsplit.symm, by simp [suffixOf, hq]⟩
  | cons d ds =>
    dsimp only
    by_cases hd : d = ch 'f'
    · subst hd
      refine ⟨ds, by simpa [suffixOf] using hsplit.symm, ?_⟩
      simp [suffixOf, hq, Nat.add_assoc]
    · refine ⟨d :: ds, by simpa [suffixOf, hd] using hsplit.symm, ?_⟩
      simp [suffixOf, hq, hd]

theorem dot_not_f : ch 'f' ≠ ch '.' := by decide

/-- A literal of one of the forms is read to its end. -/
theorem Number.lexes {c : UInt8} {cs u : Bytes} {kind : Token.Kind} (hc : isDigit c = true)
    (h : Number c cs kind u) (pos : ℕ) : ∃ rest, cs = u ++ rest ∧
      numericItems pos c ⟨pos + 1, cs⟩ =
        ([.token ⟨kind, ⟨pos, pos + 1 + u.length⟩⟩], ⟨pos + 1 + u.length, rest⟩) := by
  unfold numericItems
  cases h with
  | @hex x hs hr hcs hne htidy =>
    subst hcs
    have hcount := countP_pos_of_tidy htidy hne
    refine ⟨afterRun isHexDigit hs, by rw [List.cons_append, run_append_afterRun], ?_⟩
    rw [lexNumericLiteral_hex hc hr htidy.single]
    simp [finishNumericLiteral, numericItem, htidy.last, Nat.pos_iff_ne_zero.mp hcount]
    omega
  | integer hr hno htidy =>
    refine ⟨afterRun isDigit cs, (run_append_afterRun _ _).symm, ?_⟩
    rw [lexNumericLiteral_decimal hc hr htidy.single]
    simp [finishNumericLiteral, numericItem, htidy.last, hno]
  | @suffixed rest hr hsingle hafter =>
    refine ⟨rest, ?_, ?_⟩
    · rw [List.append_assoc, List.singleton_append, ← hafter, run_append_afterRun]
    · rw [lexNumericLiteral_decimal hc hr hsingle, hafter]
      simp [finishNumericLiteral, numericItem, lexFloatTail, dot_not_f, Nat.add_assoc]
  | @fraction frac hr hsingle hafter hd =>
    obtain ⟨after, hfrac, hscan⟩ := scanFraction_run (pos + 1 + (run isDigit cs).length + 1) frac
    refine ⟨after, ?_, ?_⟩
    · calc cs = run isDigit cs ++ ch '.' :: frac := by rw [← hafter, run_append_afterRun]
        _ = run isDigit cs ++ ch '.' ::
            (run isDigit frac ++ suffixOf (afterRun isDigit frac) ++ after) := by rw [← hfrac]
        _ = _ := by simp
    · rw [lexNumericLiteral_decimal hc hr hsingle, hafter]
      simp [finishNumericLiteral, numericItem, lexFloatTail, hd, hscan]
      omega

theorem lexFloatTail_of_rest {rest : Bytes} (h : lexFloatTail ⟨0, rest⟩ = none) (p : ℕ) :
    lexFloatTail ⟨p, rest⟩ = none := by
  cases rest with
  | nil => rfl
  | cons d ds =>
    unfold lexFloatTail at h ⊢
    dsimp only at h ⊢
    split_ifs at h ⊢
    rfl

/-- Behind a digit there is a literal of one of the forms, or the recogniser reports an error. -/
theorem number_or_invalid {c : UInt8} {cs : Bytes} (hc : isDigit c = true) (pos : ℕ) :
    (∃ kind u, Number c cs kind u) ∨ (lexNumericLiteral pos c ⟨pos + 1, cs⟩).valid = false := by
  by_cases hdoubled : DoubledSeparator c cs
  · exact Or.inr (lexNumericLiteral_doubled pos c (pos + 1) cs hdoubled).1
  cases hr : (scanRadix c ⟨0, cs⟩).1 with
  | true =>
    obtain ⟨-, x, hs, rfl, hx, -⟩ := scanRadix_hex hr
    have hsingle := mt (doubledSeparator_hex hc hr).mpr hdoubled
    by_cases hcount : (run isHexDigit hs).countP isHexDigit = 0
    · refine Or.inr ?_
      rw [lexNumericLiteral_hex hc hr hsingle]
      simp [finishNumericLiteral, hcount]
    · by_cases hlast : (run isHexDigit hs).getLast? = some (ch '_')
      · refine Or.inr ?_
        rw [lexNumericLiteral_hex hc hr hsingle]
        simp [finishNumericLiteral, hlast]
      · refine Or.inl ⟨_, _, .hex hr rfl ?_ ⟨run_all _ _, hsingle, hlast⟩⟩
        intro hnil
        rw [hnil] at hcount
        exact hcount rfl
  | false =>
    have hsingle := mt (doubledSeparator_decimal hc hr).mpr hdoubled
    cases htail : lexFloatTail ⟨0, afterRun isDigit cs⟩ with
    | some cur =>
      cases hafter : afterRun isDigit cs with
      | nil =>
        rw [hafter] at htail
        cases htail
      | cons d ds =>
        rw [hafter] at htail
        unfold lexFloatTail at htail
        dsimp only at htail
        split_ifs at htail with hdot hf
        · simp only [Bool.and_eq_true, beq_iff_eq] at hdot
          exact Or.inl ⟨_, _, .fraction hr hsingle (by rw [hafter, hdot.1]) hdot.2⟩
        · exact Or.inl ⟨_, _, .suffixed hr hsingle (by rw [hafter, beq_iff_eq.mp hf])⟩
    | none =>
      have hno := lexFloatTail_of_rest htail
      by_cases hlast : (run isDigit cs).getLast? = some (ch '_')
      · refine Or.inr ?_
        rw [lexNumericLiteral_decimal hc hr hsingle]
        simp [finishNumericLiteral, hno, hlast]
      · exact Or.inl ⟨_, _, .integer hr hno ⟨run_all _ _, hsingle, hlast⟩⟩

/-- Where a literal comes from a turn, it has one of the forms. -/
theorem number_token {pos : ℕ} {c : UInt8} {cs : Bytes} {t : Token} (hc : isDigit c = true)
    (h : numericItem (lexNumericLiteral pos c ⟨pos + 1, cs⟩) = .token t) : ∃ u rest,
      cs = u ++ rest ∧ t.tokenSpan = ⟨pos, pos + 1 + u.length⟩ ∧ Number c cs t.tokenKind u := by
  rcases number_or_invalid hc pos with ⟨kind, u, hnum⟩ | hinvalid
  · obtain ⟨rest, hcs, hitems⟩ := hnum.lexes hc pos
    have hitem := congrArg Prod.fst hitems
    change [numericItem (lexNumericLiteral pos c ⟨pos + 1, cs⟩)] = _ at hitem
    rw [h] at hitem
    cases hitem
    exact ⟨u, rest, hcs, rfl, hnum⟩
  · unfold numericItem at h
    rw [hinvalid] at h
    cases h

/-! ### Words of the languages -/

theorem mem_decimals {w : Bytes} : w ∈ decimals ↔
    ∃ c u, w = c :: u ∧ isDigit c = true ∧ Tidy isDigit (ch '_') u :=
  mem_separated digit_separator

theorem mem_integerLiterals {w : Bytes} : w ∈ integerLiterals ↔ w ∈ decimals ∨
    ∃ x hs, w = ch '0' :: x :: hs ∧ (x = ch 'x' ∨ x = ch 'X') ∧ hs ≠ [] ∧
      Tidy isHexDigit (ch '_') hs := by
  unfold integerLiterals
  rw [Language.mem_add]
  refine or_congr_right ?_
  rw [Language.mem_mul]
  constructor
  · rintro ⟨a, ha, hs, hhs, rfl⟩
    obtain ⟨z, hz, y, hy, rfl⟩ := Language.mem_mul.mp ha
    obtain rfl : z = [ch '0'] := hz
    obtain ⟨hne, htidy⟩ := (mem_next_mul_kstar hexDigit_separator).mp hhs
    rcases hy with hy | hy
    · obtain rfl : y = [ch 'x'] := hy
      exact ⟨_, hs, rfl, Or.inl rfl, hne, htidy⟩
    · obtain rfl : y = [ch 'X'] := hy
      exact ⟨_, hs, rfl, Or.inr rfl, hne, htidy⟩
  · rintro ⟨x, hs, rfl, hx, hne, htidy⟩
    refine ⟨[ch '0', x], Language.mem_mul.mpr ⟨[ch '0'], rfl, [x], ?_, rfl⟩, hs,
      (mem_next_mul_kstar hexDigit_separator).mpr ⟨hne, htidy⟩, rfl⟩
    rcases hx with rfl | rfl
    · exact Or.inl rfl
    · exact Or.inr rfl

theorem mem_floatLiterals {w : Bytes} : w ∈ floatLiterals ↔
    (∃ u v s, w = u ++ ch '.' :: (v ++ s) ∧ u ∈ decimals ∧ v ∈ decimals ∧ (s = [] ∨ s = [ch 'f'])) ∨
      ∃ u, w = u ++ [ch 'f'] ∧ u ∈ decimals := by
  unfold floatLiterals
  rw [Language.mem_add]
  refine or_congr ?_ ?_
  · rw [Language.mem_mul]
    constructor
    · rintro ⟨a, ha, s, hs, rfl⟩
      obtain ⟨b, hb, v, hv, rfl⟩ := Language.mem_mul.mp ha
      obtain ⟨u, hu, d, hd, rfl⟩ := Language.mem_mul.mp hb
      obtain rfl : d = [ch '.'] := hd
      exact ⟨u, v, s, by simp, hu, hv, hs⟩
    · rintro ⟨u, v, s, rfl, hu, hv, hs⟩
      refine ⟨u ++ [ch '.'] ++ v, ?_, s, hs, by simp⟩
      exact Language.append_mem_mul (Language.append_mem_mul hu rfl) hv
  · rw [Language.mem_mul]
    constructor
    · rintro ⟨u, hu, s, hs, rfl⟩
      obtain rfl : s = [ch 'f'] := hs
      exact ⟨u, rfl, hu⟩
    · rintro ⟨u, rfl, hu⟩
      exact ⟨u, hu, _, rfl, rfl⟩

/-! ### Separators that are not checked -/

/-- A float starts here with an underscore before its point or suffix, or with two adjacent ones in
its fraction or one at the end of it. -/
def LooseSeparator (c : UInt8) (cs : Bytes) : Prop :=
  isDigit c = true ∧ (scanRadix c ⟨0, cs⟩).1 = false ∧
    ¬ [ch '_', ch '_'] <:+: run isDigit cs ∧
    ((run isDigit cs).getLast? = some (ch '_') ∧ (afterRun isDigit cs).head? = some (ch 'f') ∨
      ∃ frac, afterRun isDigit cs = ch '.' :: frac ∧ startsWithDigit frac = true ∧
        ((run isDigit cs).getLast? = some (ch '_') ∨ [ch '_', ch '_'] <:+: run isDigit frac ∨
          (run isDigit frac).getLast? = some (ch '_')))

theorem notMem_of_run {p : UInt8 → Bool} {d : UInt8} (hd : p d = false) (hsep : d ≠ ch '_')
    (cs : Bytes) : d ∉ run p cs := by
  intro hmem
  rcases run_all p cs d hmem with h | h
  · rw [hd] at h
    cases h
  · exact hsep h

theorem notMem_of_decimals {w : Bytes} (hw : w ∈ decimals) {d : UInt8} (hd : isDigit d = false)
    (hsep : d ≠ ch '_') : d ∉ w := by
  obtain ⟨c, u, rfl, hc, htidy⟩ := mem_decimals.mp hw
  intro hmem
  rcases List.mem_cons.mp hmem with rfl | hmem
  · rw [hd] at hc
    cases hc
  · rcases htidy.all d hmem with h | h
    · rw [hd] at h
      cases h
    · exact hsep h

theorem cons_mem_decimals {c : UInt8} {u : Bytes} (hc : isDigit c = true) :
    c :: u ∈ decimals ↔ Tidy isDigit (ch '_') u := by
  rw [mem_decimals]
  constructor
  · rintro ⟨c', u', heq, -, h⟩
    cases heq
    exact h
  · exact fun h => ⟨c, u, rfl, hc, h⟩

theorem run_mem_decimals {frac : Bytes} (hd : startsWithDigit frac = true) :
    run isDigit frac ∈ decimals ↔ Tidy isDigit (ch '_') (run isDigit frac) := by
  cases frac with
  | nil => cases hd
  | cons d ds =>
    have hd' : isDigit d = true := hd
    have hrun : run isDigit (d :: ds) = d :: run isDigit ds := by simp [run, hd']
    rw [hrun, cons_mem_decimals hd', Tidy.cons digit_separator hd']

theorem tidy_run_iff {p : UInt8 → Bool} {cs : Bytes} : Tidy p (ch '_') (run p cs) ↔
    ¬ [ch '_', ch '_'] <:+: run p cs ∧ (run p cs).getLast? ≠ some (ch '_') :=
  ⟨fun h => ⟨h.single, h.last⟩, fun h => ⟨run_all p cs, h.1, h.2⟩⟩

theorem suffixOf_cases (rest : Bytes) : suffixOf rest = [] ∨ suffixOf rest = [ch 'f'] := by
  unfold suffixOf
  split_ifs
  · exact Or.inr rfl
  · exact Or.inl rfl

/-- A suffix tells where the fraction ends. -/
theorem append_suffix_inj {v w s s' : Bytes} (hv : ch 'f' ∉ v) (hw : ch 'f' ∉ w)
    (hs : s = [] ∨ s = [ch 'f']) (hs' : s' = [] ∨ s' = [ch 'f']) (h : v ++ s = w ++ s') :
    v = w := by
  rcases hs with rfl | rfl <;> rcases hs' with rfl | rfl
  · simpa using h
  · rw [List.append_nil] at h
    exact (hv (by rw [h]; simp)).elim
  · rw [List.append_nil] at h
    exact (hw (by rw [← h]; simp)).elim
  · exact List.append_cancel_right h

theorem suffixed_mem_iff {c : UInt8} {cs : Bytes} (hc : isDigit c = true)
    (hsingle : ¬ [ch '_', ch '_'] <:+: run isDigit cs) :
    c :: (run isDigit cs ++ [ch 'f']) ∈ floatLiterals ↔
      (run isDigit cs).getLast? ≠ some (ch '_') := by
  rw [mem_floatLiterals]
  constructor
  · rintro (⟨u, v, s, heq, -⟩ | ⟨u, heq, hu⟩)
    · have hmem : ch '.' ∈ c :: (run isDigit cs ++ [ch 'f']) := by
        rw [heq]
        simp
      rcases List.mem_cons.mp hmem with rfl | hmem
      · exact absurd hc (by decide)
      · rcases List.mem_append.mp hmem with hmem | hmem
        · exact (notMem_of_run (by decide) (by decide) cs hmem).elim
        · exact absurd (List.mem_singleton.mp hmem) (by decide)
    · rw [← List.cons_append] at heq
      obtain rfl := List.append_cancel_right heq
      exact ((cons_mem_decimals hc).mp hu).last
  · intro hlast
    refine Or.inr ⟨c :: run isDigit cs, by simp, (cons_mem_decimals hc).mpr ?_⟩
    exact tidy_run_iff.mpr ⟨hsingle, hlast⟩

theorem fraction_mem_iff {c : UInt8} {cs frac : Bytes} (hc : isDigit c = true)
    (hd : startsWithDigit frac = true) (hsingle : ¬ [ch '_', ch '_'] <:+: run isDigit cs) :
    c :: (run isDigit cs ++ ch '.' :: (run isDigit frac ++ suffixOf (afterRun isDigit frac))) ∈
      floatLiterals ↔ (run isDigit cs).getLast? ≠ some (ch '_') ∧
        Tidy isDigit (ch '_') (run isDigit frac) := by
  have hnodot : ch '.' ∉ c :: run isDigit cs := by
    intro hmem
    rcases List.mem_cons.mp hmem with rfl | hmem
    · exact absurd hc (by decide)
    · exact notMem_of_run (by decide) (by decide) cs hmem
  have hnodot' : ch '.' ∉ run isDigit frac ++ suffixOf (afterRun isDigit frac) := by
    intro hmem
    rcases List.mem_append.mp hmem with hmem | hmem
    · exact notMem_of_run (by decide) (by decide) frac hmem
    · rcases suffixOf_cases (afterRun isDigit frac) with h | h <;> rw [h] at hmem
      · cases hmem
      · exact absurd (List.mem_singleton.mp hmem) (by decide)
  rw [mem_floatLiterals, ← List.cons_append]
  constructor
  · rintro (⟨u, v, s, heq, hu, hv, hs⟩ | ⟨u, heq, hu⟩)
    · obtain ⟨rfl, -, htail⟩ := (List.append_cons_inj_of_notMem hnodot hnodot').mp heq
      have hfrac := append_suffix_inj (notMem_of_run (by decide) (by decide) frac)
        (notMem_of_decimals hv (by decide) (by decide)) (suffixOf_cases _) hs htail
      rw [← hfrac] at hv
      exact ⟨((cons_mem_decimals hc).mp hu).last, (run_mem_decimals hd).mp hv⟩
    · have hmem : ch '.' ∈ u ++ [ch 'f'] := by
        rw [← heq]
        simp
      rcases List.mem_append.mp hmem with hmem | hmem
      · exact (notMem_of_decimals hu (by decide) (by decide) hmem).elim
      · exact absurd (List.mem_singleton.mp hmem) (by decide)
  · rintro ⟨hlast, htidy⟩
    refine Or.inl ⟨c :: run isDigit cs, run isDigit frac, _, rfl, ?_, (run_mem_decimals hd).mpr htidy,
      suffixOf_cases _⟩
    exact (cons_mem_decimals hc).mpr (tidy_run_iff.mpr ⟨hsingle, hlast⟩)

/-- A float is spelled as it should be unless it starts with a separator that is not checked. -/
theorem float_mem_iff {c : UInt8} {cs u : Bytes} (hc : isDigit c = true)
    (h : Number c cs .float_literal u) : c :: u ∈ floatLiterals ↔ ¬ LooseSeparator c cs := by
  unfold LooseSeparator
  cases h with
  | @suffixed rest hr hsingle hafter =>
    rw [suffixed_mem_iff hc hsingle, hafter]
    have hne : ∀ frac, ch 'f' :: rest ≠ ch '.' :: frac := fun frac heq => by
      exact absurd (List.cons.inj heq).1 (by decide)
    simp [hc, hr, hsingle, hne]
  | @fraction frac hr hsingle hafter hd =>
    rw [fraction_mem_iff hc hd hsingle, hafter, tidy_run_iff]
    have hne : ch '.' ≠ ch 'f' := by decide
    simp only [hc, hr, hsingle, List.head?_cons, Option.some.injEq, hne, and_false, false_or,
      List.cons.injEq, true_and, not_false_eq_true]
    constructor
    · rintro ⟨h₁, h₂, h₃⟩ ⟨frac', rfl, -, h | h | h⟩
      · exact h₁ h
      · exact h₂ h
      · exact h₃ h
    · intro h
      refine ⟨fun h₁ => h ⟨frac, rfl, hd, Or.inl h₁⟩, fun h₂ => h ⟨frac, rfl, hd, Or.inr (Or.inl h₂)⟩,
        fun h₃ => h ⟨frac, rfl, hd, Or.inr (Or.inr h₃)⟩⟩

theorem integer_mem {c : UInt8} {cs u : Bytes} (hc : isDigit c = true)
    (h : Number c cs .integer_literal u) : c :: u ∈ integerLiterals := by
  rw [mem_integerLiterals]
  cases h with
  | @hex x hs hr hcs hne htidy =>
    subst hcs
    obtain ⟨rfl, x', hs', heq, hx, -⟩ := scanRadix_hex hr
    cases heq
    exact Or.inr ⟨x, _, rfl, hx, hne, htidy⟩
  | integer hr hno htidy => exact Or.inl ((cons_mem_decimals hc).mpr htidy)

/-! ### Reading a word of the languages -/

theorem run_tidy {p : UInt8 → Bool} {w v : Bytes} (h : Tidy p (ch '_') w)
    (hv : v.head?.all (fun d => !(p d || d == ch '_')) = true) :
    run p (w ++ v) = w ∧ afterRun p (w ++ v) = v :=
  h.takeWhile (fun d => by simp) hv

theorem scanRadix_tidy {c : UInt8} {u v : Bytes} (h : Tidy isDigit (ch '_') u)
    (hv : v.head?.all (fun d => d != ch 'x' && d != ch 'X') = true) :
    (scanRadix c ⟨0, u ++ v⟩).1 = false := by
  have hx : ∀ d ∈ (u ++ v).head?, d ≠ ch 'x' ∧ d ≠ ch 'X' := by
    intro d hd
    cases u with
    | nil =>
      rw [List.nil_append] at hd
      rw [Option.mem_def.mp hd] at hv
      simpa using hv
    | cons e u =>
      obtain rfl : e = d := Option.some.inj hd
      rcases h.all e (by simp) with he | rfl
      · constructor <;> rintro rfl <;> exact absurd he (by decide)
      · decide
  cases huv : u ++ v with
  | nil => rfl
  | cons d ds =>
    obtain ⟨h₁, h₂⟩ := hx d (by rw [huv]; rfl)
    unfold scanRadix
    simp [h₁, h₂]

theorem number_of_decimal {c : UInt8} {u : Bytes} (h : Tidy isDigit (ch '_') u) :
    Number c u .integer_literal u := by
  obtain ⟨hrun, hafter⟩ := run_tidy (v := []) h rfl
  have hr := scanRadix_tidy (c := c) (v := []) h rfl
  rw [List.append_nil] at hrun hafter hr
  have hnum := Number.integer hr (fun p => by rw [hafter]; rfl) (by rwa [hrun])
  rwa [hrun] at hnum

theorem number_of_hex {x : UInt8} {hs : Bytes} (hx : x = ch 'x' ∨ x = ch 'X') (hne : hs ≠ [])
    (h : Tidy isHexDigit (ch '_') hs) : Number (ch '0') (x :: hs) .integer_literal (x :: hs) := by
  obtain ⟨hrun, -⟩ := run_tidy (v := []) h rfl
  rw [List.append_nil] at hrun
  have hr : (scanRadix (ch '0') ⟨0, x :: hs⟩).1 = true := by
    rcases hx with rfl | rfl <;> rfl
  have hnum := Number.hex hr rfl (by rwa [hrun]) (by rwa [hrun])
  rwa [hrun] at hnum

theorem number_of_suffixed {c : UInt8} {u : Bytes} (h : Tidy isDigit (ch '_') u) :
    Number c (u ++ [ch 'f']) .float_literal (u ++ [ch 'f']) := by
  obtain ⟨hrun, hafter⟩ := run_tidy (v := [ch 'f']) h (by decide)
  have hnum := Number.suffixed (scanRadix_tidy (c := c) h (by decide)) (by rw [hrun]; exact h.single)
    hafter
  rwa [hrun] at hnum

theorem number_of_fraction {c d : UInt8} {u v s : Bytes} (h : Tidy isDigit (ch '_') u)
    (hd : isDigit d = true) (hv : Tidy isDigit (ch '_') v) (hs : s = [] ∨ s = [ch 'f']) :
    Number c (u ++ ch '.' :: (d :: v ++ s)) .float_literal (u ++ ch '.' :: (d :: v ++ s)) := by
  obtain ⟨hrun, hafter⟩ := run_tidy (v := ch '.' :: (d :: v ++ s)) h rfl
  have htidy := (Tidy.cons digit_separator hd).mpr hv
  have hstop : s.head?.all (fun d => !(isDigit d || d == ch '_')) = true := by
    rcases hs with rfl | rfl <;> decide
  have hsuffix : suffixOf s = s := by rcases hs with rfl | rfl <;> rfl
  obtain ⟨hrun', hafter'⟩ := run_tidy htidy hstop
  have hnum := Number.fraction (scanRadix_tidy (c := c) h rfl) (by rw [hrun]; exact h.single) hafter hd
  rwa [hrun, hrun', hafter', hsuffix] at hnum

theorem digit_not_space {c : UInt8} (hc : isDigit c = true) : isSpace c = false := by
  by_contra h
  rw [not_of_isSpace (p := isDigit) (by decide) c (by simpa using h)] at hc
  cases hc

theorem isLexeme_of_number {c : UInt8} {u : Bytes} {kind : Token.Kind} (hc : isDigit c = true)
    (h : Number c u kind u) : IsLexeme kind (c :: u) := by
  obtain ⟨rest, hrest, hitems⟩ := h.lexes hc 0
  obtain rfl : rest = [] := by simpa using hrest
  have hspace : isSpace c = false := digit_not_space hc
  have hskip : skipWhitespace ⟨0, c :: u⟩ = ⟨0, c :: u⟩ := by
    simp [skipWhitespace, skipWhile, hspace]
  have hend : skipWhitespace ⟨0 + 1 + u.length, []⟩ = ⟨0 + 1 + u.length, []⟩ := rfl
  have hstep : lexStep 0 c u = _ := (digit_turn hc).trans hitems
  unfold IsLexeme
  rw [lexAll_eq, lexRange_turn hskip, hstep, lexRange_stop hend]
  simp [Nat.add_comm]

theorem isLexeme_of_integer {text : Bytes} (h : text ∈ integerLiterals) :
    IsLexeme .integer_literal text := by
  rcases mem_integerLiterals.mp h with h | ⟨x, hs, rfl, hx, hne, htidy⟩
  · obtain ⟨c, u, rfl, hc, htidy⟩ := mem_decimals.mp h
    exact isLexeme_of_number hc (number_of_decimal htidy)
  · exact isLexeme_of_number (by decide) (number_of_hex hx hne htidy)

theorem isLexeme_of_float {text : Bytes} (h : text ∈ floatLiterals) :
    IsLexeme .float_literal text := by
  rcases mem_floatLiterals.mp h with ⟨u, v, s, rfl, hu, hv, hs⟩ | ⟨u, rfl, hu⟩
  · obtain ⟨c, u, rfl, hc, htidy⟩ := mem_decimals.mp hu
    obtain ⟨d, v, rfl, hd, htidy'⟩ := mem_decimals.mp hv
    exact isLexeme_of_number hc (number_of_fraction htidy hd htidy' hs)
  · obtain ⟨c, u, rfl, hc, htidy⟩ := mem_decimals.mp hu
    exact isLexeme_of_number hc (number_of_suffixed htidy)

/-! ### Tokens of a buffer -/

theorem Number.token {buffer : Bytes} {pos : ℕ} {c : UInt8} {cs u : Bytes} {kind : Token.Kind}
    (hturn : TurnAt ⟨0, buffer⟩ pos c cs) (hc : isDigit c = true) (h : Number c cs kind u) :
    ∃ t, LexerItem.token t ∈ lexAll buffer ∧ t.tokenKind = kind ∧
      wordAt buffer t.tokenSpan = c :: u := by
  obtain ⟨rest, rfl, hitems⟩ := h.lexes hc pos
  refine ⟨⟨kind, ⟨pos, pos + 1 + u.length⟩⟩, ?_, rfl, hturn.wordAt⟩
  rw [lexAll_eq]
  refine List.mem_append_left _ (hturn.items_mem _ ?_)
  rw [digit_turn hc, hitems]
  exact List.mem_singleton_self _

/-- A numeric token comes from a turn that starts with a digit. -/
theorem number_turn {buffer : Bytes} {t : Token} (ht : LexerItem.token t ∈ lexAll buffer)
    (hk : t.tokenKind = .integer_literal ∨ t.tokenKind = .float_literal) :
    ∃ pos c cs u, TurnAt ⟨0, buffer⟩ pos c cs ∧ isDigit c = true ∧ Number c cs t.tokenKind u ∧
      wordAt buffer t.tokenSpan = c :: u := by
  have hlit : isLiteralKind t.tokenKind = true := by rcases hk with h | h <;> rw [h] <;> rfl
  obtain ⟨pos, c, cs, hturn, hcase⟩ := literal_turn ht hlit
  cases hcase with
  | number hc h =>
    obtain ⟨u, rest, rfl, hspan, hnum⟩ := number_token hc h
    refine ⟨pos, c, _, u, hturn, hc, hnum, ?_⟩
    rw [hspan]
    exact hturn.wordAt
  | string _ h =>
    unfold stringItem at h
    split_ifs at h
    cases h
    rcases hk with hk | hk <;> cases hk
  | character _ h =>
    unfold characterItem at h
    split_ifs at h
    cases h
    rcases hk with hk | hk <;> cases hk

theorem LooseSeparator.float {c : UInt8} {cs : Bytes} (h : LooseSeparator c cs) :
    ∃ u, Number c cs .float_literal u := by
  obtain ⟨-, hr, hsingle, ⟨-, hf⟩ | ⟨frac, hafter, hd, -⟩⟩ := h
  · obtain ⟨rest, hafter⟩ := List.head?_eq_some_iff.mp hf
    exact ⟨_, .suffixed hr hsingle hafter⟩
  · exact ⟨_, .fraction hr hsingle hafter hd⟩

/-- Numeric tokens are words of their languages, and such a word alone is one token. -/
structure NumbersSpelled (buffer : Bytes) : Prop where
  integers : ∀ t, LexerItem.token t ∈ lexAll buffer → t.tokenKind = .integer_literal →
    wordAt buffer t.tokenSpan ∈ integerLiterals
  floats : ∀ t, LexerItem.token t ∈ lexAll buffer → t.tokenKind = .float_literal →
    wordAt buffer t.tokenSpan ∈ floatLiterals
  integer_alone : buffer ∈ integerLiterals → IsLexeme .integer_literal buffer
  float_alone : buffer ∈ floatLiterals → IsLexeme .float_literal buffer

theorem numbers_spelled_iff (buffer : Bytes) : NumbersSpelled buffer ↔
    ∀ pos c cs, TurnAt ⟨0, buffer⟩ pos c cs → ¬ LooseSeparator c cs := by
  constructor
  · intro h pos c cs hturn hloose
    obtain ⟨u, hnum⟩ := hloose.float
    obtain ⟨t, ht, hk, hword⟩ := hnum.token hturn hloose.1
    have hmem := h.floats t ht hk
    rw [hword, float_mem_iff hloose.1 hnum] at hmem
    exact hmem hloose
  · intro h
    refine ⟨fun t ht hk => ?_, fun t ht hk => ?_, isLexeme_of_integer, isLexeme_of_float⟩
    · obtain ⟨pos, c, cs, u, -, hc, hnum, hword⟩ := number_turn ht (Or.inl hk)
      rw [hk] at hnum
      rw [hword]
      exact integer_mem hc hnum
    · obtain ⟨pos, c, cs, u, hturn, hc, hnum, hword⟩ := number_turn ht (Or.inr hk)
      rw [hk] at hnum
      rw [hword, float_mem_iff hc hnum]
      exact h pos c cs hturn

/-- The separator of `1_.5` stands before the point. -/
def looseFloat : Bytes := ascii "1_.5"

theorem looseFloat_misspelled : IsLexeme .float_literal looseFloat ∧ ¬ NumbersSpelled looseFloat := by
  have hlex : IsLexeme .float_literal looseFloat := by decide +kernel
  refine ⟨hlex, fun h => ?_⟩
  have hall : lexAll looseFloat = _ := hlex
  have hmem := h.floats ⟨.float_literal, ⟨0, looseFloat.length⟩⟩ (by rw [hall]; simp) rfl
  have hword : wordAt looseFloat ⟨0, looseFloat.length⟩ = ch '1' :: (run isDigit (ascii "_.5") ++
      ch '.' :: (run isDigit (ascii "5") ++ suffixOf (afterRun isDigit (ascii "5")))) := by
    decide +kernel
  rw [hword, fraction_mem_iff (by decide) (by decide) (by decide)] at hmem
  exact hmem.1 (by decide)

end Eter.Lexer
