import Eter.LexerScanners

/-!
# The main loop of the lexer

`lexStep` is one turn of the loop behind the whitespace, `lexLoop` the loop over a range, and `lex`
the entry point, which appends the end-of-file token only when the range is the whole buffer.
-/

namespace Eter.Lexer
open Scan

def identifierItem (token : Token) (text : Bytes) : LexerItem :=
  if isReservedKeyword text then .error ⟨.ReservedKeyword, token.tokenSpan⟩ else .token token

def identifierItems (tokStart : ℕ) (c : UInt8) (cur : Cur) : List LexerItem × Cur :=
  let r := lexIdentifier tokStart c cur
  ([identifierItem r.1 r.2.1], r.2.2)

def numericItem (r : NumericLiteral) : LexerItem :=
  if r.valid then .token r.token else .error ⟨.InvalidNumericLiteral, r.token.tokenSpan⟩

def numericItems (tokStart : ℕ) (c : UInt8) (cur : Cur) : List LexerItem × Cur :=
  let r := lexNumericLiteral tokStart c cur
  ([numericItem r], r.cur)

def stringItem (terminated : Bool) (span : Span) : LexerItem :=
  if terminated then .token ⟨.string_literal, span⟩ else .error ⟨.UnterminatedStringLiteral, span⟩

def stringItems (tokStart : ℕ) (cur : Cur) : List LexerItem × Cur :=
  let r := lexStringLiteral cur
  (r.items ++ [stringItem r.terminated ⟨tokStart, r.cur.pos⟩], r.cur)

def characterItem (terminated : Bool) (charCount : ℕ) (span : Span) : LexerItem :=
  if terminated && charCount == 1 then .token ⟨.char_literal, span⟩
  else if !terminated then .error ⟨.UnterminatedCharLiteral, span⟩
  else if charCount == 0 then .error ⟨.EmptyCharLiteral, span⟩
  else .error ⟨.MultiCharCharLiteral, span⟩

def characterItems (tokStart : ℕ) (cur : Cur) : List LexerItem × Cur :=
  let r := lexCharacterLiteral cur
  (r.items ++ [characterItem r.terminated r.charCount ⟨tokStart, r.cur.pos⟩], r.cur)

def symbolItem (kind : Token.Kind) (span : Span) : LexerItem :=
  if kind ≠ .unknown then
    if isReservedSymbolKind kind then .error ⟨.ReservedSymbol, span⟩ else .token ⟨kind, span⟩
  else .error ⟨.InvalidCharacter, span⟩

def symbolItems (tokStart : ℕ) (c : UInt8) (cur : Cur) : List LexerItem × Cur :=
  let r := lexSymbol c cur
  ([symbolItem r.1 ⟨tokStart, r.2.pos⟩], r.2)

/-- The branches behind the comment case; a single `/` reaches the operators. -/
def lexToken (tokStart : ℕ) (c : UInt8) (cur : Cur) : List LexerItem × Cur :=
  if isAlpha c || c == ch '_' then identifierItems tokStart c cur
  else if isDigit c then numericItems tokStart c cur
  else if c == ch '"' then stringItems tokStart cur
  else if c == ch '\'' then characterItems tokStart cur
  else symbolItems tokStart c cur

/-- One turn: `c` is the byte at `tokStart`, `cs` what follows it. -/
def lexStep (tokStart : ℕ) (c : UInt8) (cs : Bytes) : List LexerItem × Cur :=
  let cur : Cur := ⟨tokStart + 1, cs⟩
  match if c == ch '/' then lexComment tokStart cur else none with
  | some r => r
  | none => lexToken tokStart c cur

/-- The loop over at most `fuel` turns; a turn consumes a byte. -/
def lexLoop : ℕ → Cur → List LexerItem
  | 0, _ => []
  | fuel + 1, cur =>
    match skipWhitespace cur with
    | ⟨_, []⟩ => []
    | ⟨pos, c :: cs⟩ => (lexStep pos c cs).1 ++ lexLoop fuel (lexStep pos c cs).2

/-- The cursor at the start of a range; its end is the end of the range. -/
def rangeStart (buffer : Bytes) (range : Span) : Cur :=
  ⟨range.start, (buffer.drop range.start).take (range.end - range.start)⟩

def ValidRange (buffer : Bytes) (range : Span) : Prop :=
  range.start ≤ range.end ∧ range.end ≤ buffer.length

instance (buffer : Bytes) (range : Span) : Decidable (ValidRange buffer range) :=
  inferInstanceAs (Decidable (_ ∧ _))

/-- The items without the final end-of-file token. -/
def lexRange (cur : Cur) : List LexerItem := lexLoop cur.rest.length cur

def eofItems (buffer : Bytes) (range : Span) : List LexerItem :=
  if range.start = 0 ∧ range.end = buffer.length then
    [.token ⟨.eof, ⟨buffer.length, buffer.length⟩⟩]
  else []

def lex (buffer : Bytes) (range : Span) : List LexerItem :=
  if ValidRange buffer range then
    lexRange (rangeStart buffer range) ++ eofItems buffer range
  else []

/-- `lex` on the entire buffer. -/
def lexAll (buffer : Bytes) : List LexerItem := lex buffer ⟨0, buffer.length⟩

def ignoringEof (items : List LexerItem) : List LexerItem := items.filter fun it => !it.isEof

end Eter.Lexer
