import Eter.TokenKinds

/-!
# The token stream

The lexer's items without regular comments; an error becomes an `unknown` token, and the error
itself is kept aside. Reading past the last token yields end-of-file tokens. The cursor is a 32-bit
word of the source and unbounded here.
-/

namespace Eter

structure TokenStream where
  tokens : List Token
  lexErrors : List LexerError
  source : Bytes
  cursor : ℕ
  deriving DecidableEq, Repr

namespace TokenStream

def tokensOf : List LexerItem → List Token
  | [] => []
  | .token t :: items =>
    if t.tokenKind = .comment then tokensOf items else t :: tokensOf items
  | .error e :: items => ⟨.unknown, e.errorSpan⟩ :: tokensOf items

def errorsOf : List LexerItem → List LexerError
  | [] => []
  | .token _ :: items => errorsOf items
  | .error e :: items => e :: errorsOf items

/-- A stream nothing was read from. -/
def fresh (tokens : List Token) (lexErrors : List LexerError) (source : Bytes) : TokenStream :=
  ⟨tokens, lexErrors, source, 0⟩

/-- The constructor of the stream. -/
def ofItems (items : List LexerItem) (source : Bytes) : TokenStream :=
  fresh (tokensOf items) (errorsOf items) source

/-- The end-of-file token made up past the last token. -/
def endToken (s : TokenStream) : Token :=
  let endOff := match s.tokens.getLast? with
    | some t => t.tokenSpan.end
    | none => 0
  ⟨.eof, ⟨endOff, endOff⟩⟩

def peek (s : TokenStream) (offset : ℕ) : Token.Kind :=
  match s.tokens[s.cursor + offset]? with
  | some t => t.tokenKind
  | none => .eof

def peekToken (s : TokenStream) (offset : ℕ) : Token :=
  match s.tokens[s.cursor + offset]? with
  | some t => t
  | none => s.endToken

def previous (s : TokenStream) : Token :=
  match s.cursor with
  | 0 =>
    match s.tokens.head? with
    | some t => ⟨.eof, t.tokenSpan⟩
    | none => ⟨.eof, ⟨0, 0⟩⟩
  | c + 1 =>
    match s.tokens[c]? with
    | some t => t
    | none => s.endToken

def check (s : TokenStream) (k : Token.Kind) : Bool := s.peek 0 = k

def atEof (s : TokenStream) : Bool := s.check .eof

def advance (s : TokenStream) : Token × TokenStream :=
  match s.tokens[s.cursor]? with
  | some t => (t, { s with cursor := s.cursor + 1 })
  | none => (s.endToken, s)

def consume (s : TokenStream) (k : Token.Kind) : Bool × TokenStream :=
  if s.check k then (true, s.advance.2) else (false, s)

def textOf (s : TokenStream) (span : Span) : Bytes := Eter.textOf s.source span

end TokenStream

end Eter
