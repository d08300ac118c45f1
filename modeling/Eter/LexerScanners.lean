import Eter.Scan
import Eter.TokenKinds

/-!
# The token recognisers of the lexer

`CurPtr` is a cursor over the bytes up to `BufferEnd`. Each recogniser returns the cursor it leaves
behind with what it recognised, so every read is bounded by the end of the range.
-/

namespace Eter.Lexer
open Scan

abbrev Cur := Cursor UInt8

def isDigit (c : UInt8) : Bool := ch '0' ≤ c && c ≤ ch '9'

def isAlpha (c : UInt8) : Bool := (ch 'a' ≤ c && c ≤ ch 'z') || (ch 'A' ≤ c && c ≤ ch 'Z')

def isHexDigit (c : UInt8) : Bool :=
  isDigit c || (ch 'a' ≤ c && c ≤ ch 'f') || (ch 'A' ≤ c && c ≤ ch 'F')

def isSpace (c : UInt8) : Bool := c == ch ' ' || c == ch '\t' || c == ch '\n' || c == ch '\r'

def isIdentByte (c : UInt8) : Bool := isAlpha c || isDigit c || c == ch '_'

def isNewline (c : UInt8) : Bool := c == ch '\n' || c == ch '\r'

def pushLexerError (kind : LexerError.Kind) (start «end» : ℕ) : LexerItem :=
  .error ⟨kind, ⟨start, «end»⟩⟩

def skipWhitespace (cur : Cur) : Cur := skipWhile isSpace cur.pos cur.rest

def isReservedKeyword (text : Bytes) : Bool := reservedKeywords.any fun k => ascii k == text

/-- No reserved symbol is declared, so the switch has only its default. -/
def isReservedSymbolKind : Token.Kind → Bool := fun _ => false

/-! ### Identifiers and numbers -/

def keywordKind (text : Bytes) : Token.Kind :=
  match keywords.find? fun k => ascii k.1 == text with
  | some k => k.2
  | none => .identifier

/-- `first` is the byte already consumed; the text of the token starts with it. -/
def lexIdentifier (tokStart : ℕ) (first : UInt8) (cur : Cur) : Token × Bytes × Cur :=
  let cur' := skipWhile isIdentByte cur.pos cur.rest
  let text := first :: cur.rest.takeWhile isIdentByte
  (⟨keywordKind text, ⟨tokStart, cur'.pos⟩⟩, text, cur')

structure IntegerPart where
  early : Bool
  hexDigits : ℕ
  prevWasUnderscore : Bool
  cur : Cur

/-- The loop over the integer part. It is left early at the second of two adjacent underscores. -/
def scanIntegerPart (isHex : Bool) (hexDigits : ℕ) (prev : Bool) : ℕ → Bytes → IntegerPart
  | pos, [] => ⟨false, hexDigits, prev, ⟨pos, []⟩⟩
  | pos, c :: cs =>
    if isHex && isHexDigit c then scanIntegerPart isHex (hexDigits + 1) false (pos + 1) cs
    else if !isHex && isDigit c then scanIntegerPart isHex hexDigits false (pos + 1) cs
    else if c == ch '_' then
      if prev then ⟨true, hexDigits, prev, ⟨pos, c :: cs⟩⟩
      else scanIntegerPart isHex hexDigits true (pos + 1) cs
    else ⟨false, hexDigits, prev, ⟨pos, c :: cs⟩⟩

structure NumericLiteral where
  valid : Bool
  token : Token
  cur : Cur

/-- The fraction after `.`: digits and underscores, then an optional `f`. -/
def scanFraction (pos : ℕ) (rest : Bytes) : Cur :=
  let cur := skipWhile (fun c => isDigit c || c == ch '_') pos rest
  match cur.rest with
  | c :: cs => if c == ch 'f' then ⟨cur.pos + 1, cs⟩ else cur
  | [] => cur

theorem scanFraction_eq_takeIf (pos : ℕ) (rest : Bytes) : scanFraction pos rest =
    (takeIf (fun c => if c == ch 'f' then some true else none) false
      (skipWhile (fun c => isDigit c || c == ch '_') pos rest)).2 := by
  simp only [scanFraction, takeIf]
  generalize skipWhile (fun c => isDigit c || c == ch '_') pos rest = cur
  obtain ⟨p, cs⟩ := cur
  cases cs with
  | nil => rfl
  | cons c cs => dsimp only; split_ifs <;> rfl

def startsWithDigit : Bytes → Bool
  | d :: _ => isDigit d
  | [] => false

/-- The float branches: a fraction, or the suffix `f` alone; `none` when the literal is an
integer. -/
def lexFloatTail (cur : Cur) : Option Cur :=
  match cur.rest with
  | c :: cs =>
    if c == ch '.' && startsWithDigit cs then some (scanFraction (cur.pos + 1) cs)
    else if c == ch 'f' then some ⟨cur.pos + 1, cs⟩
    else none
  | [] => none

/-- What follows the integer part of a literal that was not left early. -/
def finishNumericLiteral (tokStart : ℕ) (isHex : Bool) (int : IntegerPart) : NumericLiteral :=
  match if isHex then none else lexFloatTail int.cur with
  | some cur => ⟨true, ⟨.float_literal, ⟨tokStart, cur.pos⟩⟩, cur⟩
  | none =>
    -- `*(CurPtr - 1)` is an underscore exactly when the loop ended just behind one
    let valid := !(isHex && int.hexDigits == 0) && !int.prevWasUnderscore
    ⟨valid, ⟨.integer_literal, ⟨tokStart, int.cur.pos⟩⟩, int.cur⟩

/-- `0x` or `0X`: the radix mark is consumed before the loop. -/
def scanRadix (first : UInt8) (cur : Cur) : Bool × Cur :=
  match cur.rest with
  | c :: cs =>
    if first == ch '0' && (c == ch 'x' || c == ch 'X') then (true, ⟨cur.pos + 1, cs⟩)
    else (false, cur)
  | [] => (false, cur)

theorem scanRadix_eq_takeIf (first : UInt8) : scanRadix first =
    takeIf (fun c => if first == ch '0' && (c == ch 'x' || c == ch 'X') then some true else none)
      false := by
  funext ⟨pos, rest⟩
  cases rest with
  | nil => rfl
  | cons c cs => simp only [scanRadix, takeIf]; split_ifs <;> rfl

/-- On two adjacent underscores the recogniser returns before it has set the span, which keeps
the value `(0, 0)` the caller gave it. -/
def lexNumericLiteral (tokStart : ℕ) (first : UInt8) (cur : Cur) : NumericLiteral :=
  let radix := scanRadix first cur
  let int := scanIntegerPart radix.1 0 false radix.2.pos radix.2.rest
  if int.early then ⟨false, ⟨.integer_literal, ⟨0, 0⟩⟩, int.cur⟩
  else finishNumericLiteral tokStart radix.1 int

/-! ### String and character literals -/

/-- The end of a unicode escape behind its digits. -/
def closeUnicodeEscape (escapeStart : ℕ) (hasDigits : Bool) (cur : Cur) : List LexerItem × Cur :=
  match cur.rest with
  | c :: cs =>
    if c == ch '}' then
      if hasDigits then ([], ⟨cur.pos + 1, cs⟩)
      else ([pushLexerError .InvalidUnicodeEscape escapeStart (cur.pos + 1)], ⟨cur.pos + 1, cs⟩)
    else ([pushLexerError .InvalidUnicodeEscape escapeStart cur.pos], cur)
  | [] => ([pushLexerError .InvalidUnicodeEscape escapeStart cur.pos], cur)

theorem closeUnicodeEscape_eq (escapeStart : ℕ) (hasDigits : Bool) :
    closeUnicodeEscape escapeStart hasDigits = fun cur =>
      let closed := takeIf (fun c => if c == ch '}' then some true else none) false cur
      (if closed.1 && hasDigits then []
        else [pushLexerError .InvalidUnicodeEscape escapeStart closed.2.pos], closed.2) := by
  funext ⟨pos, rest⟩
  cases rest with
  | nil => simp [closeUnicodeEscape, takeIf]
  | cons c cs => by_cases h : (c == ch '}') = true <;> cases hasDigits <;>
      simp [closeUnicodeEscape, takeIf, h]

/-- `none` when the escape is not `u` followed by an opening brace. -/
def lexUnicodeEscape (escapeStart : ℕ) (cur : Cur) : Option (List LexerItem × Cur) :=
  match cur.rest with
  | u :: b :: cs =>
    if u == ch 'u' && b == ch '{' then
      let digits := skipWhile isHexDigit (cur.pos + 2) cs
      some (closeUnicodeEscape escapeStart (decide (cur.pos + 2 < digits.pos)) digits)
    else none
  | _ => none

structure QuotedLiteral where
  terminated : Bool
  items : List LexerItem
  charCount : ℕ
  cur : Cur

def isSimpleEscape (c : UInt8) : Bool :=
  c == ch 'n' || c == ch 't' || c == ch 'r' || c == ch '0' || c == ch '\\' || c == ch '"' ||
    c == ch '\''

def isContinuationByte (c : UInt8) : Bool := c &&& 0xC0 == 0x80

/-- One turn of the literal loop: go on with the errors and characters added, or stop. -/
inductive QuotedTurn where
  | continue (errors : List LexerItem) (chars : ℕ) (cur : Cur)
  | stop (terminated : Bool) (errors : List LexerItem) (cur : Cur)

/-- The escape behind a backslash at `escapeStart`. -/
def lexEscape (escapeStart : ℕ) (cur : Cur) : QuotedTurn :=
  match cur.rest with
  | [] => .stop false [pushLexerError .InvalidEscapeSequence escapeStart cur.pos] cur
  | next :: cs =>
    match lexUnicodeEscape escapeStart cur with
    | some (errors, cur') => .continue errors 1 cur'
    | none =>
      if isSimpleEscape next then .continue [] 1 ⟨cur.pos + 1, cs⟩
      else .continue [pushLexerError .InvalidEscapeSequence escapeStart (cur.pos + 1)] 1
        ⟨cur.pos + 1, cs⟩

def quotedTurn (quote : UInt8) (pos : ℕ) (c : UInt8) (cs : Bytes) : QuotedTurn :=
  if c == ch '\\' then lexEscape pos ⟨pos + 1, cs⟩
  else if c == quote then .stop true [] ⟨pos + 1, cs⟩
  else if isNewline c then .stop false [] ⟨pos + 1, cs⟩
  else .continue [] (if isContinuationByte c then 0 else 1) ⟨pos + 1, cs⟩

/-- The loop both literal recognisers run, over at most `fuel` turns; a turn consumes a byte. -/
def lexQuoted (quote : UInt8) : ℕ → List LexerItem → ℕ → Cur → QuotedLiteral
  | 0, items, count, cur => ⟨false, items, count, cur⟩
  | fuel + 1, items, count, cur =>
    match cur.rest with
    | [] => ⟨false, items, count, cur⟩
    | c :: cs =>
      match quotedTurn quote cur.pos c cs with
      | .continue errors chars cur' => lexQuoted quote fuel (items ++ errors) (count + chars) cur'
      | .stop terminated errors cur' => ⟨terminated, items ++ errors, count, cur'⟩

def lexStringLiteral (cur : Cur) : QuotedLiteral := lexQuoted (ch '"') cur.rest.length [] 0 cur

def lexCharacterLiteral (cur : Cur) : QuotedLiteral := lexQuoted (ch '\'') cur.rest.length [] 0 cur

/-! ### Comments -/

/-- The body of a block comment at nesting depth `depth`. -/
def scanBlockComment : ℕ → ℕ → Bytes → ℕ × Cur
  | 0, pos, cs => (0, ⟨pos, cs⟩)
  | depth + 1, pos, [] => (depth + 1, ⟨pos, []⟩)
  | depth + 1, pos, [_] => (depth + 1, ⟨pos + 1, []⟩)
  | depth + 1, pos, c :: d :: cs =>
    if c == ch '/' && d == ch '*' then scanBlockComment (depth + 2) (pos + 2) cs
    else if c == ch '*' && d == ch '/' then scanBlockComment depth (pos + 2) cs
    else scanBlockComment (depth + 1) (pos + 1) (d :: cs)

/-- `!` after exactly two slashes marks a file-level doc comment. -/
def scanBang (slashCount : ℕ) (cur : Cur) : Bool × Cur :=
  match cur.rest with
  | c :: cs => if slashCount == 2 && c == ch '!' then (true, ⟨cur.pos + 1, cs⟩) else (false, cur)
  | [] => (false, cur)

theorem scanBang_eq_takeIf (slashCount : ℕ) : scanBang slashCount =
    takeIf (fun c => if slashCount == 2 && c == ch '!' then some true else none) false := by
  funext ⟨pos, rest⟩
  cases rest with
  | nil => rfl
  | cons c cs => simp only [scanBang, takeIf]; split_ifs <;> rfl

def lineCommentKind (slashCount : ℕ) (bang : Bool) : Token.Kind :=
  if slashCount == 3 then .doc_comment else if bang then .file_doc_comment else .comment

def restOfLine (tokStart : ℕ) (kind : Token.Kind) (cur : Cur) : Token × Cur :=
  let line := skipWhile (fun c => !isNewline c) cur.pos cur.rest
  (⟨kind, ⟨tokStart, line.pos⟩⟩, line)

/-- `cur` stands behind the second slash. -/
def lexLineComment (tokStart : ℕ) (cur : Cur) : Token × Cur :=
  let slashes := skipWhile (· == ch '/') cur.pos cur.rest
  let slashCount := 2 + (slashes.pos - cur.pos)
  let bang := scanBang slashCount slashes
  restOfLine tokStart (lineCommentKind slashCount bang.1) bang.2

/-- `cur` stands behind the opening; at the end of the range the token is still made. -/
def blockCommentItems (tokStart : ℕ) (cur : Cur) : List LexerItem × Cur :=
  let body := scanBlockComment 1 cur.pos cur.rest
  let token := LexerItem.token ⟨.comment, ⟨tokStart, body.2.pos⟩⟩
  if body.1 == 0 then ([token], body.2)
  else ([pushLexerError .UnterminatedBlockComment tokStart body.2.pos, token], body.2)

/-- `cur` stands behind the first slash; `none` when no comment starts here. -/
def lexComment (tokStart : ℕ) (cur : Cur) : Option (List LexerItem × Cur) :=
  match cur.rest with
  | c :: cs =>
    if c == ch '*' then some (blockCommentItems tokStart ⟨cur.pos + 1, cs⟩)
    else if c == ch '/' then
      let line := lexLineComment tokStart ⟨cur.pos + 1, cs⟩
      some ([.token line.1], line.2)
    else none
  | [] => none

/-! ### Symbols -/

/-- The first alternative whose character comes next is taken; otherwise `default`. -/
def follow (alternatives : List (Char × Token.Kind)) (default : Token.Kind) (cur : Cur) :
    Token.Kind × Cur :=
  match cur.rest with
  | c :: cs =>
    match alternatives.find? fun a => ch a.1 == c with
    | some a => (a.2, ⟨cur.pos + 1, cs⟩)
    | none => (default, cur)
  | [] => (default, cur)

theorem follow_eq_takeIf (alternatives : List (Char × Token.Kind)) (default : Token.Kind) :
    follow alternatives default =
      takeIf (fun c => (alternatives.find? fun a => ch a.1 == c).map (·.2)) default := by
  funext ⟨pos, rest⟩
  cases rest with
  | nil => rfl
  | cons c cs =>
      simp only [follow, takeIf]
      cases alternatives.find? fun a => ch a.1 == c <;> rfl

/-- `<` and `>`: doubled they may be followed by `=`. -/
def followShift (c : Char) (shiftEq shift orEq single : Token.Kind) (cur : Cur) : Token.Kind × Cur :=
  match cur.rest with
  | d :: ds =>
    if d == ch c then follow [('=', shiftEq)] shift ⟨cur.pos + 1, ds⟩
    else follow [('=', orEq)] single cur
  | [] => (single, cur)

/-- What follows the first `<` or `>`, with or without its double. -/
def afterShift (shiftEq shift orEq single : Token.Kind) (doubled : Bool) : Cur → Token.Kind × Cur :=
  if doubled then follow [('=', shiftEq)] shift else follow [('=', orEq)] single

theorem followShift_eq (c : Char) (shiftEq shift orEq single : Token.Kind) :
    followShift c shiftEq shift orEq single = fun cur =>
      afterShift shiftEq shift orEq single
        (takeIf (fun d => if d == ch c then some true else none) false cur).1
        (takeIf (fun d => if d == ch c then some true else none) false cur).2 := by
  funext ⟨pos, rest⟩
  cases rest with
  | nil => rfl
  | cons d ds =>
      by_cases h : (d == ch c) = true
      · simp [followShift, takeIf, afterShift, h]
      · simp [followShift, takeIf, afterShift, h]

/-- The switch over punctuation and operators; `unknown` for any other byte. -/
def lexSymbol (c : UInt8) (cur : Cur) : Token.Kind × Cur :=
  match Char.ofNat c.toNat with
  | '(' => (.l_paren, cur)
  | ')' => (.r_paren, cur)
  | '{' => (.l_brace, cur)
  | '}' => (.r_brace, cur)
  | '[' => (.l_square, cur)
  | ']' => (.r_square, cur)
  | ',' => (.comma, cur)
  | ';' => (.semi, cur)
  | ':' => follow [(':', .colon_colon)] .colon cur
  | '+' => follow [('+', .plus_plus), ('=', .plus_eq)] .plus cur
  | '-' => follow [('-', .minus_minus), ('=', .minus_eq), ('>', .arrow)] .minus cur
  | '*' => follow [('=', .star_eq)] .star cur
  | '/' => follow [('=', .slash_eq)] .slash cur
  | '%' => follow [('=', .percent_eq)] .percent cur
  | '&' => follow [('&', .amp_amp), ('=', .amp_eq)] .amp cur
  | '|' => follow [('|', .pipe_pipe), ('=', .pipe_eq)] .pipe cur
  | '^' => follow [('=', .caret_eq)] .caret cur
  | '<' => followShift '<' .less_less_eq .less_less .less_eq .less cur
  | '>' => followShift '>' .greater_greater_eq .greater_greater .greater_eq .greater cur
  | '=' => follow [('=', .eq_eq), ('>', .fat_arrow)] .eq cur
  | '!' => follow [('=', .bang_eq)] .bang cur
  | '.' => (.dot, cur)
  | '?' => (.question, cur)
  | '@' => (.at, cur)
  | _ => (.unknown, cur)

end Eter.Lexer
