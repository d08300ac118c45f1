import Eter.NumericLanguage
import Eter.LexerRelocation
import Eter.Utf8

/-!
# What text literals denote

Every literal of a text in UTF-8 denotes a text as long as its unicode escapes name scalar values,
which the recognisers do not look at.
-/

namespace Eter.Lexer
open Scan Cursor Utf8

/-! ### Escapes -/

/-- The number a hexadecimal digit stands for. -/
def hexDigitValue (d : UInt8) : ℕ :=
  if isDigit d then d.toNat - (ch '0').toNat
  else if ch 'a' ≤ d then d.toNat - (ch 'a').toNat + 10
  else d.toNat - (ch 'A').toNat + 10

def hexValue (ds : Bytes) : ℕ := ds.foldl (fun v d => 16 * v + hexDigitValue d) 0

/-- The character a simple escape stands for. -/
def escapedChar (e : UInt8) : Option Char :=
  match Char.ofNat e.toNat with
  | 'n' => some '\n'
  | 't' => some '\t'
  | 'r' => some '\r'
  | '0' => some (Char.ofNat 0)
  | '\\' => some '\\'
  | '"' => some '"'
  | '\'' => some '\''
  | _ => none

/-- The text between the quotes of a literal stands for a text. -/
inductive Denotes : Bytes → List Char → Prop where
  | nil : Denotes [] []
  | simple {e : UInt8} {c : Char} {rest : Bytes} {cs : List Char} (he : escapedChar e = some c)
      (h : Denotes rest cs) : Denotes (ch '\\' :: e :: rest) (c :: cs)
  | unicode {ds : Bytes} {c : Char} {rest : Bytes} {cs : List Char} (hne : ds ≠ [])
      (hhex : ∀ d ∈ ds, isHexDigit d = true) (hc : hexValue ds = c.toNat) (h : Denotes rest cs) :
      Denotes (ch '\\' :: ch 'u' :: ch '{' :: (ds ++ ch '}' :: rest)) (c :: cs)
  | plain {c : Char} {rest : Bytes} {cs : List Char} (hc : c ≠ '\\') (h : Denotes rest cs) :
      Denotes (String.utf8EncodeChar c ++ rest) (c :: cs)

/-- The digits of the unicode escapes, in order. -/
def unicodeEscapes : Bytes → List Bytes
  | c :: d :: rest =>
    if c == ch '\\' then
      if d == ch 'u' && rest.head? == some (ch '{') then
        rest.tail.takeWhile isHexDigit :: unicodeEscapes rest
      else unicodeEscapes rest
    else unicodeEscapes (d :: rest)
  | _ => []

theorem unicodeEscapes_plain {b : UInt8} (hb : b ≠ ch '\\') (rest : Bytes) :
    unicodeEscapes (b :: rest) = unicodeEscapes rest := by
  cases rest with
  | nil => rfl
  | cons d rest => simp [unicodeEscapes, hb]

theorem unicodeEscapes_skip {w : Bytes} (hw : ∀ b ∈ w, b ≠ ch '\\') (rest : Bytes) :
    unicodeEscapes (w ++ rest) = unicodeEscapes rest := by
  induction w with
  | nil => rfl
  | cons b w ih =>
    rw [List.cons_append, unicodeEscapes_plain (hw b (by simp))]
    exact ih fun d hd => hw d (List.mem_cons_of_mem b hd)

theorem unicodeEscapes_simple {e : UInt8} (he : e ≠ ch 'u') (rest : Bytes) :
    unicodeEscapes (ch '\\' :: e :: rest) = unicodeEscapes rest := by
  simp [unicodeEscapes, he]

theorem not_backslash_of_hex {d : UInt8} (hd : isHexDigit d = true) : d ≠ ch '\\' := by
  rintro rfl
  exact absurd hd (by decide)

theorem unicodeEscapes_unicode {ds : Bytes} (hhex : ∀ d ∈ ds, isHexDigit d = true) (rest : Bytes) :
    unicodeEscapes (ch '\\' :: ch 'u' :: ch '{' :: (ds ++ ch '}' :: rest)) =
      ds :: unicodeEscapes rest := by
  have hdigits : (ds ++ ch '}' :: rest).takeWhile isHexDigit = ds := by
    rw [List.takeWhile_append_of_pos hhex, List.takeWhile_cons_of_neg (by decide), List.append_nil]
  have hskip : unicodeEscapes (ch '{' :: (ds ++ ch '}' :: rest)) = unicodeEscapes rest := by
    rw [unicodeEscapes_plain (by decide),
      unicodeEscapes_skip fun d hd => not_backslash_of_hex (hhex d hd),
      unicodeEscapes_plain (by decide)]
  rw [unicodeEscapes]
  simp only [beq_self_eq_true, if_true, List.head?_cons, Bool.and_true, List.tail_cons, hdigits, hskip]

theorem encodeChar_not_backslash {c : Char} (hc : c ≠ '\\') :
    ∀ b ∈ String.utf8EncodeChar c, b ≠ ch '\\' := by
  rintro b hb rfl
  rcases encodeChar_cases c with ⟨hlt, henc⟩ | ⟨a, w, henc, ha, -, hw⟩
  · rw [henc] at hb
    have heq := congrArg UInt8.toNat (List.mem_singleton.mp hb)
    rw [UInt8.toNat_ofNat_of_lt' (hlt.trans (by decide))] at heq
    refine hc (Char.ext (UInt32.toNat.inj ?_))
    exact heq.symm
  · rw [henc] at hb
    rcases List.mem_cons.mp hb with rfl | hb
    · exact ha (by decide)
    · exact continuation_not_ascii (hw _ hb) (by decide)

/-- What stands for a text has only escapes of scalar values. -/
theorem Denotes.escapes {body : Bytes} {cs : List Char} (h : Denotes body cs) :
    ∀ ds ∈ unicodeEscapes body, (hexValue ds).isValidChar := by
  induction h with
  | nil => simp [unicodeEscapes]
  | simple he _ ih =>
    rw [unicodeEscapes_simple]
    · exact ih
    · rintro rfl
      rw [show escapedChar (ch 'u') = none by decide] at he
      cases he
  | @unicode ds c rest cs _ hhex hc _ ih =>
    rw [unicodeEscapes_unicode hhex]
    intro es hes
    rcases List.mem_cons.mp hes with rfl | hes
    · rw [hc]
      exact c.valid
    · exact ih es hes
  | plain hc _ ih =>
    rw [unicodeEscapes_skip (encodeChar_not_backslash hc)]
    exact ih

/-! ### What the recognisers accept -/

/-- Bytes between the quotes of a literal without errors, and how many characters are counted. -/
inductive Quoted : Bytes → ℕ → Prop where
  | nil : Quoted [] 0
  | simple {e : UInt8} {rest : Bytes} {n : ℕ} (he : isSimpleEscape e = true) (h : Quoted rest n) :
      Quoted (ch '\\' :: e :: rest) (1 + n)
  | unicode {ds rest : Bytes} {n : ℕ} (hne : ds ≠ []) (hhex : ∀ d ∈ ds, isHexDigit d = true)
      (h : Quoted rest n) : Quoted (ch '\\' :: ch 'u' :: ch '{' :: (ds ++ ch '}' :: rest)) (1 + n)
  | plain {b : UInt8} {rest : Bytes} {n : ℕ} (hb : b ≠ ch '\\') (h : Quoted rest n) :
      Quoted (b :: rest) ((if isContinuationByte b then 0 else 1) + n)

/-- A turn over `u` counts `k` characters. -/
def Turns (u : Bytes) (k : ℕ) : Prop := ∀ rest n, Quoted rest n → Quoted (u ++ rest) (k + n)

theorem closeUnicodeEscape_silent {escapeStart : ℕ} {hasDigits : Bool} {cur : Cur}
    (h : Silent (closeUnicodeEscape escapeStart hasDigits cur).1) : hasDigits = true ∧
      ∃ rest, cur.rest = ch '}' :: rest ∧
        closeUnicodeEscape escapeStart hasDigits cur = ([], ⟨cur.pos + 1, rest⟩) := by
  obtain ⟨pos, rest⟩ := cur
  unfold closeUnicodeEscape at h ⊢
  cases rest with
  | nil => exact (h _ (List.mem_singleton_self _)).elim
  | cons c cs =>
    dsimp only at h ⊢
    split_ifs at h ⊢ with hc hd
    · exact ⟨hd, cs, by rw [beq_iff_eq.mp hc], rfl⟩
    · exact (h _ (List.mem_singleton_self _)).elim
    · exact (h _ (List.mem_singleton_self _)).elim

theorem lexUnicodeEscape_turns {escapeStart : ℕ} {cur cur' : Cur} {items : List LexerItem}
    (h : lexUnicodeEscape escapeStart cur = some (items, cur')) (hs : Silent items) :
    ∃ u, cur.Reads u cur' ∧ Turns (ch '\\' :: u) 1 := by
  obtain ⟨pos, rest⟩ := cur
  unfold lexUnicodeEscape at h
  split at h
  · next u b cs hrest =>
    obtain rfl : rest = u :: b :: cs := hrest
    split_ifs at h with hub
    simp only [Bool.and_eq_true, beq_iff_eq] at hub
    obtain ⟨rfl, rfl⟩ := hub
    have heq := Option.some.inj h
    have hread := skipWhile_reads isHexDigit (pos + 2) cs
    dsimp only at heq
    have hs' : Silent (items, cur').1 := hs
    rw [← heq] at hs'
    obtain ⟨hdigits, rest, hrest', hclose⟩ := closeUnicodeEscape_silent hs'
    rw [hclose] at heq
    obtain rfl : cur' = _ := (congrArg Prod.snd heq).symm
    have hpos := hread.pos_eq
    have hcs := hread.rest_eq
    rw [hrest'] at hcs
    dsimp only at hpos hcs hdigits
    refine ⟨ch 'u' :: ch '{' :: (cs.takeWhile isHexDigit ++ [ch '}']), ⟨?_, ?_⟩, fun r n hr => ?_⟩
    · rw [List.cons_append, List.cons_append, List.append_assoc, List.singleton_append, ← hcs]
    · simp [hpos]
      omega
    · have hne : cs.takeWhile isHexDigit ≠ [] := by
        intro hnil
        rw [hpos, hnil] at hdigits
        simp at hdigits
      have hquoted := Quoted.unicode hne (fun d hd => List.mem_takeWhile_imp hd) hr
      simpa using hquoted
  · cases h

/-- What a turn without errors does. -/
inductive CleanTurn (quote : UInt8) (pos : ℕ) (c : UInt8) (cs : Bytes) : QuotedTurn → Prop where
  | «continue» {u : Bytes} {k : ℕ} {cur : Cur} (hu : Cursor.Reads ⟨pos, c :: cs⟩ u cur)
      (hk : Turns u k) : CleanTurn quote pos c cs (.continue [] k cur)
  | stop (hc : c = quote) : CleanTurn quote pos c cs (.stop true [] ⟨pos + 1, cs⟩)
  | unfinished {errors : List LexerItem} {cur : Cur} :
      CleanTurn quote pos c cs (.stop false errors cur)

theorem lexEscape_clean {quote : UInt8} {pos : ℕ} {cs : Bytes}
    (hs : Silent (lexEscape pos ⟨pos + 1, cs⟩).errors) :
    CleanTurn quote pos (ch '\\') cs (lexEscape pos ⟨pos + 1, cs⟩) := by
  unfold lexEscape at hs ⊢
  cases cs with
  | nil => exact .unfinished
  | cons next cs =>
    dsimp only at hs ⊢
    cases hu : lexUnicodeEscape pos ⟨pos + 1, next :: cs⟩ with
    | some r =>
      obtain ⟨errors, cur'⟩ := r
      rw [hu] at hs
      obtain rfl := (lexUnicodeEscape_errors hu).eq_nil hs
      obtain ⟨u, hread, hturns⟩ := lexUnicodeEscape_turns hu hs
      exact .continue ((Reads.cons pos (ch '\\') (next :: cs)).trans hread) hturns
    | none =>
      rw [hu] at hs
      dsimp only at hs ⊢
      split_ifs at hs ⊢ with he
      · exact .continue (u := [ch '\\', next]) ⟨rfl, rfl⟩ fun rest n hr => .simple he hr
      · exact (hs _ (List.mem_singleton_self _)).elim

theorem quotedTurn_clean {quote : UInt8} {pos : ℕ} {c : UInt8} {cs : Bytes}
    (hs : Silent (quotedTurn quote pos c cs).errors) :
    CleanTurn quote pos c cs (quotedTurn quote pos c cs) := by
  unfold quotedTurn at hs ⊢
  split_ifs at hs ⊢ with h₁ h₂ h₃ h₄
  · obtain rfl := beq_iff_eq.mp h₁
    exact lexEscape_clean hs
  · exact .stop (beq_iff_eq.mp h₂)
  · exact .unfinished
  all_goals
    refine .continue (Reads.cons pos c cs) fun rest n hr => ?_
    have hplain := Quoted.plain (by simpa using h₁) hr
    simpa [h₄] using hplain

/-- A literal that is terminated without errors. -/
theorem lexQuoted_clean {quote : UInt8} {fuel : ℕ} {items : List LexerItem} {count : ℕ} {cur : Cur}
    (hs : Silent (lexQuoted quote fuel items count cur).items)
    (ht : (lexQuoted quote fuel items count cur).terminated = true) :
    ∃ body n, cur.Reads (body ++ [quote]) (lexQuoted quote fuel items count cur).cur ∧
      Quoted body n ∧ (lexQuoted quote fuel items count cur).charCount = count + n := by
  induction fuel generalizing items count cur with
  | zero => cases ht
  | succ fuel ih =>
    obtain ⟨pos, rest⟩ := cur
    cases rest with
    | nil => cases ht
    | cons c cs =>
      have herrors : Silent (quotedTurn quote pos c cs).errors := by
        simp only [lexQuoted] at hs
        cases hturn : quotedTurn quote pos c cs with
        | «continue» errors chars cur' =>
          rw [hturn] at hs
          obtain ⟨later, hitems⟩ := lexQuoted_items quote fuel (items ++ errors) (count + chars) cur'
          rw [hitems] at hs
          exact (silent_append.mp (silent_append.mp hs).1).2
        | stop terminated errors cur' =>
          rw [hturn] at hs
          exact (silent_append.mp hs).2
      have hclean := quotedTurn_clean herrors
      simp only [lexQuoted] at hs ht ⊢
      generalize quotedTurn quote pos c cs = turn at hs ht hclean
      cases hclean with
      | @«continue» u k cur' hu hk =>
        obtain ⟨body, n, hread, hquoted, hcount⟩ := ih hs ht
        refine ⟨u ++ body, k + n, ?_, hk _ _ hquoted, ?_⟩
        · rw [List.append_assoc]
          exact hu.trans hread
        · rw [← Nat.add_assoc]
          exact hcount
      | stop hc =>
        subst hc
        exact ⟨[], 0, Reads.cons pos c cs, .nil, rfl⟩
      | unfinished => cases ht

/-! ### From bytes to characters -/

theorem isContinuationByte_eq : isContinuationByte = isContinuation := rfl

theorem Quoted.skip {w rest : Bytes} {n : ℕ} (hw : ∀ b ∈ w, isContinuationByte b = true)
    (h : Quoted (w ++ rest) n) : Quoted rest n := by
  induction w generalizing n with
  | nil => exact h
  | cons b w ih =>
    have hb := hw b (by simp)
    have hwide : ¬ b < 128 := continuation_not_ascii hb
    rw [List.cons_append] at h
    generalize hv : w ++ rest = v at h
    cases h with
    | simple => exact (hwide (by decide)).elim
    | unicode => exact (hwide (by decide)).elim
    | plain _ h =>
      subst hv
      rw [hb, if_pos rfl, Nat.zero_add]
      exact ih (fun d hd => hw d (List.mem_cons_of_mem b hd)) h

theorem escapedChar_of_simple {e : UInt8} (h : isSimpleEscape e = true) :
    ∃ c, escapedChar e = some c := by
  simp only [isSimpleEscape, Bool.or_eq_true, beq_iff_eq] at h
  obtain (((((rfl | rfl) | rfl) | rfl) | rfl) | rfl) | rfl := h <;> exact ⟨_, rfl⟩

theorem isText_tail {a : UInt8} {rest : Bytes} (ha : a < 128) (h : IsText (a :: rest)) :
    IsText rest := by
  have hcut : IsText ([] ++ a :: rest) := h
  exact (isText_cut ha hcut).2

/-- A scalar value is the number of a character. -/
theorem exists_char {n : ℕ} (h : n.isValidChar) : ∃ c : Char, n = c.toNat := by
  refine ⟨Char.ofNat n, ?_⟩
  unfold Char.ofNat
  rw [dif_pos h]
  rfl

/-- The bytes of a literal in a text stand for one character each time one is counted. -/
theorem Quoted.denotes {body : Bytes} {n : ℕ} (h : Quoted body n) (htext : IsText body)
    (hscalar : ∀ ds ∈ unicodeEscapes body, (hexValue ds).isValidChar) :
    ∃ cs, Denotes body cs ∧ cs.length = n := by
  induction hlen : body.length using Nat.strong_induction_on generalizing body n with
  | _ len ih =>
    subst hlen
    cases h with
    | nil => exact ⟨[], .nil, rfl⟩
    | @simple e rest n he h =>
      obtain ⟨c, hc⟩ := escapedChar_of_simple he
      have hascii : e < 128 := by
        simp only [isSimpleEscape, Bool.or_eq_true, beq_iff_eq] at he
        obtain (((((rfl | rfl) | rfl) | rfl) | rfl) | rfl) | rfl := he <;> decide
      rw [unicodeEscapes_simple (by rintro rfl; exact absurd he (by decide))] at hscalar
      obtain ⟨cs, hcs, hlen⟩ := ih rest.length (by simp) h
        (isText_tail hascii (isText_tail (by decide) htext)) hscalar rfl
      exact ⟨c :: cs, .simple hc hcs, by simp [hlen, Nat.add_comm]⟩
    | @unicode ds rest n hne hhex h =>
      rw [unicodeEscapes_unicode hhex] at hscalar
      obtain ⟨c, hc⟩ := exists_char (hscalar ds (by simp))
      have hbrace : IsText ((ch '\\' :: ch 'u' :: ch '{' :: ds) ++ ch '}' :: rest) := htext
      have hrest : IsText rest := (isText_cut (by decide) hbrace).2
      obtain ⟨cs, hcs, hlen⟩ := ih rest.length (by simp; omega) h hrest
        (fun es hes => hscalar es (List.mem_cons_of_mem ds hes)) rfl
      exact ⟨c :: cs, .unicode hne hhex hc hcs, by simp [hlen, Nat.add_comm]⟩
    | @plain b rest n hb h =>
      obtain ⟨chars, hchars⟩ := htext
      cases chars with
      | nil => cases hchars
      | cons c chars =>
        rw [encode_cons] at hchars
        -- the first character goes with all its bytes
        have hc : c ≠ '\\' := by
          rintro rfl
          exact hb (List.cons.inj hchars).1
        have hchar : ∃ w, String.utf8EncodeChar c = b :: w ∧ isContinuation b = false ∧
            ∀ d ∈ w, isContinuation d = true := by
          rcases encodeChar_cases c with ⟨hlt, henc⟩ | ⟨a, w, henc, -, hlead, hw⟩
          · rw [henc] at hchars
            obtain ⟨rfl, -⟩ := List.cons.inj hchars
            exact ⟨[], henc, ascii_not_continuation hlt, by simp⟩
          · rw [henc] at hchars
            obtain ⟨rfl, -⟩ := List.cons.inj hchars
            exact ⟨w, henc, hlead, hw⟩
        obtain ⟨w, henc, hlead, hw⟩ := hchar
        rw [henc, List.cons_append] at hchars
        obtain rfl := (List.cons.inj hchars).2
        rw [isContinuationByte_eq, hlead, if_neg Bool.false_ne_true]
        rw [← List.cons_append, ← henc, unicodeEscapes_skip (encodeChar_not_backslash hc)] at hscalar
        obtain ⟨cs, hcs, hlen⟩ := ih (encode chars).length (by simp) (h.skip hw) ⟨chars, rfl⟩
          hscalar rfl
        refine ⟨c :: cs, ?_, by simp [hlen, Nat.add_comm]⟩
        have hplain := Denotes.plain hc hcs
        rwa [henc] at hplain

/-! ### Literals of a buffer -/

/-- No error lies inside the token. -/
def Undisturbed (buffer : Bytes) (t : Token) : Prop := ∀ e, LexerItem.error e ∈ lexAll buffer →
  ¬ (t.tokenSpan.start ≤ e.errorSpan.start ∧ e.errorSpan.end ≤ t.tokenSpan.end)

/-- A string or character literal without errors inside. -/
structure CleanText (buffer : Bytes) (t : Token) : Prop where
  mem : LexerItem.token t ∈ lexAll buffer
  kind : t.tokenKind = .string_literal ∨ t.tokenKind = .char_literal
  undisturbed : Undisturbed buffer t

/-- The bytes between the quotes. -/
def betweenQuotes (buffer : Bytes) (t : Token) : Bytes := (wordAt buffer t.tokenSpan).tail.dropLast

theorem lexQuoted_undisturbed {buffer : Bytes} {pos : ℕ} {c quote : UInt8} {cs : Bytes} {t : Token}
    (hturn : TurnAt ⟨0, buffer⟩ pos c cs)
    (hitems : (lexQuoted quote cs.length [] 0 ⟨pos + 1, cs⟩).items ⊆ (lexStep pos c cs).1)
    (hspan : t.tokenSpan = ⟨pos, (lexQuoted quote cs.length [] 0 ⟨pos + 1, cs⟩).cur.pos⟩)
    (h : Undisturbed buffer t) : Silent (lexQuoted quote cs.length [] 0 ⟨pos + 1, cs⟩).items := by
  intro e he
  have hmem : LexerItem.error e ∈ lexAll buffer := by
    rw [lexAll_eq]
    exact List.mem_append_left _ (hturn.items_mem _ (hitems he))
  obtain ⟨hlo, -, hhi⟩ := lexQuoted_within quote cs.length [] 0 pos ⟨pos + 1, cs⟩ (within_nil _ _)
    (Nat.le_succ pos) _ he
  refine h e hmem ?_
  rw [hspan]
  exact ⟨hlo, hhi⟩

theorem betweenQuotes_of_reads {buffer : Bytes} {pos q : ℕ} {c quote : UInt8} {cs body rest : Bytes}
    {t : Token} (hturn : TurnAt ⟨0, buffer⟩ pos c cs)
    (hread : Cursor.Reads ⟨pos + 1, cs⟩ (body ++ [quote]) ⟨q, rest⟩)
    (hspan : t.tokenSpan = ⟨pos, q⟩) : betweenQuotes buffer t = body := by
  have hcs : cs = body ++ [quote] ++ rest := hread.rest_eq
  have hq : q = pos + 1 + (body ++ [quote]).length := hread.pos_eq
  rw [hcs] at hturn
  unfold betweenQuotes
  rw [hspan, hq, hturn.wordAt]
  simp

theorem string_turn (pos : ℕ) (cs : Bytes) :
    lexStep pos (ch '"') cs = stringItems pos ⟨pos + 1, cs⟩ := rfl

theorem character_turn (pos : ℕ) (cs : Bytes) :
    lexStep pos (ch '\'') cs = characterItems pos ⟨pos + 1, cs⟩ := rfl

/-- Where a literal stands, and how its characters are counted. -/
theorem lexQuoted_between {buffer : Bytes} {pos : ℕ} {c quote : UInt8} {cs : Bytes} {t : Token}
    (hturn : TurnAt ⟨0, buffer⟩ pos c cs)
    (hitems : (lexQuoted quote cs.length [] 0 ⟨pos + 1, cs⟩).items ⊆ (lexStep pos c cs).1)
    (hspan : t.tokenSpan = ⟨pos, (lexQuoted quote cs.length [] 0 ⟨pos + 1, cs⟩).cur.pos⟩)
    (h : Undisturbed buffer t)
    (hterm : (lexQuoted quote cs.length [] 0 ⟨pos + 1, cs⟩).terminated = true) :
    Quoted (betweenQuotes buffer t) (lexQuoted quote cs.length [] 0 ⟨pos + 1, cs⟩).charCount ∧
      ∃ v rest, buffer = v ++ c :: (betweenQuotes buffer t ++ quote :: rest) := by
  have hsilent := lexQuoted_undisturbed hturn hitems hspan h
  obtain ⟨body, n, hread, hquoted, hcount⟩ := lexQuoted_clean hsilent hterm
  obtain ⟨v, hv⟩ := hturn.reads
  have hbetween := betweenQuotes_of_reads hturn hread hspan
  have hbuffer : buffer = v ++ c :: cs := hv.rest_eq
  have hcs : cs = body ++ [quote] ++ (lexQuoted quote cs.length [] 0 ⟨pos + 1, cs⟩).cur.rest :=
    hread.rest_eq
  rw [List.append_assoc, List.singleton_append] at hcs
  rw [hbetween, hcount, Nat.zero_add]
  refine ⟨hquoted, v, (lexQuoted quote cs.length [] 0 ⟨pos + 1, cs⟩).cur.rest, ?_⟩
  rw [← hcs]
  exact hbuffer

theorem CleanText.quoted {buffer : Bytes} {t : Token} (h : CleanText buffer t) :
    ∃ v rest : Bytes, ∃ c quote : UInt8, ∃ n, c < 128 ∧ quote < 128 ∧
      buffer = v ++ c :: (betweenQuotes buffer t ++ quote :: rest) ∧
      Quoted (betweenQuotes buffer t) n ∧ (t.tokenKind = .char_literal → n = 1) := by
  have hlit : isLiteralKind t.tokenKind = true := by rcases h.kind with h | h <;> rw [h] <;> rfl
  obtain ⟨pos, c, cs, hturn, hcase⟩ := literal_turn h.mem hlit
  cases hcase with
  | number hc hnum =>
    obtain ⟨u, rest, -, -, hnumber⟩ := number_token hc hnum
    rcases h.kind with hk | hk <;> rw [hk] at hnumber <;> cases hnumber
  | string hc hstring =>
    subst hc
    unfold stringItem at hstring
    split_ifs at hstring with hterm
    obtain rfl := (LexerItem.token.inj hstring).symm
    obtain ⟨hquoted, v, rest, hbuffer⟩ := lexQuoted_between hturn
      (by rw [string_turn]; exact List.subset_append_left _ _) rfl h.undisturbed hterm
    exact ⟨v, rest, _, _, _, by decide, by decide, hbuffer, hquoted, fun hk => nomatch hk⟩
  | character hc hchar =>
    subst hc
    unfold characterItem at hchar
    split_ifs at hchar with hone
    obtain rfl := (LexerItem.token.inj hchar).symm
    rw [Bool.and_eq_true, beq_iff_eq] at hone
    obtain ⟨hquoted, v, rest, hbuffer⟩ := lexQuoted_between hturn
      (by rw [character_turn]; exact List.subset_append_left _ _) rfl h.undisturbed hone.1
    exact ⟨v, rest, _, _, _, by decide, by decide, hbuffer, hquoted, fun _ => hone.2⟩

/-- Every clean literal denotes a text, a character literal one character. -/
def TextDecodes (buffer : Bytes) : Prop := ∀ t, CleanText buffer t →
  ∃ cs, Denotes (betweenQuotes buffer t) cs ∧ (t.tokenKind = .char_literal → cs.length = 1)

theorem text_decodes_iff (buffer : Bytes) (htext : IsText buffer) : TextDecodes buffer ↔
    ∀ t, CleanText buffer t → ∀ ds ∈ unicodeEscapes (betweenQuotes buffer t),
      (hexValue ds).isValidChar := by
  constructor
  · intro h t ht
    obtain ⟨cs, hcs, -⟩ := h t ht
    exact hcs.escapes
  · intro h t ht
    obtain ⟨v, rest, c, quote, n, hc, hquote, hbuffer, hquoted, hone⟩ := ht.quoted
    rw [hbuffer] at htext
    have hbody := (isText_cut hquote (isText_cut hc htext).2).1
    obtain ⟨cs, hcs, hlen⟩ := hquoted.denotes hbody (h t ht)
    exact ⟨cs, hcs, fun hk => hlen.trans (hone hk)⟩

/-- `'\u` with the digits `1F600` in braces. -/
def smiley : Bytes := ascii "'\\u\x7b1F600\x7d'"

theorem smiley_decodes : IsText smiley ∧ TextDecodes smiley := by
  have htext : IsText smiley := ⟨"'\\u\x7b1F600\x7d'".toList, by decide +kernel⟩
  refine ⟨htext, (text_decodes_iff smiley htext).mpr fun t ht => ?_⟩
  have hlex : lexAll smiley = [.token ⟨.char_literal, ⟨0, 11⟩⟩, .token ⟨.eof, ⟨11, 11⟩⟩] := by
    decide +kernel
  have hmem := ht.mem
  have hkind := ht.kind
  rw [hlex] at hmem
  simp only [List.mem_cons, LexerItem.token.injEq, List.not_mem_nil, or_false] at hmem
  rcases hmem with rfl | rfl
  · decide +kernel
  · rcases hkind with h | h <;> cases h

/-- The digits `110000` name no scalar value. -/
def beyondUnicode : Bytes := ascii "'\\u\x7b110000\x7d'"

theorem beyondUnicode_denotes_nothing : IsText beyondUnicode ∧ ¬ TextDecodes beyondUnicode := by
  have hlex : lexAll beyondUnicode = [.token ⟨.char_literal, ⟨0, 12⟩⟩, .token ⟨.eof, ⟨12, 12⟩⟩] := by
    decide +kernel
  refine ⟨⟨"'\\u\x7b110000\x7d'".toList, by decide +kernel⟩, fun h => ?_⟩
  have hclean : CleanText beyondUnicode ⟨.char_literal, ⟨0, 12⟩⟩ := by
    refine ⟨by simp [hlex], Or.inr rfl, fun e he => ?_⟩
    rw [hlex] at he
    simp at he
  obtain ⟨cs, hcs, -⟩ := h _ hclean
  have hvalid := hcs.escapes (ascii "110000") (by decide +kernel)
  exact absurd hvalid (by decide +kernel)

end Eter.Lexer
