import Eter.SourceText

/-!
# Token kinds, tokens, and lexer errors

The kinds stand in the order of `TokenKinds.def`, which fixes their numeric values. Reserved
keywords have kinds but the lexer reports them as errors; no reserved symbol is declared.
-/

namespace Eter

inductive Token.Kind where
  | unknown | eof | doc_comment | file_doc_comment | comment | identifier | integer_literal
  | float_literal | char_literal | string_literal
  | l_paren | r_paren | l_brace | r_brace | l_square | r_square | comma | semi | colon
  | colon_colon | plus | minus | star | slash | percent | caret | plus_plus | minus_minus
  | pipe | less_less | greater_greater | amp | amp_amp | pipe_pipe | bang | eq_eq | bang_eq
  | less | greater | less_eq | greater_eq | eq | plus_eq | minus_eq | star_eq | slash_eq
  | percent_eq | amp_eq | pipe_eq | caret_eq | less_less_eq | greater_greater_eq | dot
  | fat_arrow | at | question
  | kw_as | kw_break | kw_const | kw_continue | kw_else | kw_enum | kw_false | kw_imm | kw_in_
  | kw_fn | kw_for | kw_if | kw_let | kw_match | kw_mod | kw_mut | kw_proj | kw_pub | kw_ret
  | kw_struct | kw_tensor | kw_trait | kw_true | kw_union | kw_unsafe_ | kw_impl | kw_Self
  | kw_use | kw_while
  | reserved_dim | reserved_ref | reserved_return | reserved_shape | reserved_sym
  | reserved_tsor | reserved_type | reserved_where
  | arrow
  deriving DecidableEq, Repr

namespace Token.Kind

/-- The numeric value of the enumerator, as operator payloads store it. -/
def value (k : Token.Kind) : ℕ := k.ctorIdx

end Token.Kind

def getTokenName : Token.Kind → String
  | .unknown => "unknown"
  | .eof => "eof"
  | .doc_comment => "doc_comment"
  | .file_doc_comment => "file_doc_comment"
  | .comment => "comment"
  | .identifier => "identifier"
  | .integer_literal => "integer_literal"
  | .float_literal => "float_literal"
  | .char_literal => "char_literal"
  | .string_literal => "string_literal"
  | .l_paren => "("
  | .r_paren => ")"
  | .l_brace => "\x7b"
  | .r_brace => "\x7d"
  | .l_square => "["
  | .r_square => "]"
  | .comma => ","
  | .semi => ";"
  | .colon => ":"
  | .colon_colon => "::"
  | .plus => "+"
  | .minus => "-"
  | .star => "*"
  | .slash => "/"
  | .percent => "%"
  | .caret => "^"
  | .plus_plus => "++"
  | .minus_minus => "--"
  | .pipe => "|"
  | .less_less => "<<"
  | .greater_greater => ">>"
  | .amp => "&"
  | .amp_amp => "&&"
  | .pipe_pipe => "||"
  | .bang => "!"
  | .eq_eq => "=="
  | .bang_eq => "!="
  | .less => "<"
  | .greater => ">"
  | .less_eq => "<="
  | .greater_eq => ">="
  | .eq => "="
  | .plus_eq => "+="
  | .minus_eq => "-="
  | .star_eq => "*="
  | .slash_eq => "/="
  | .percent_eq => "%="
  | .amp_eq => "&="
  | .pipe_eq => "|="
  | .caret_eq => "^="
  | .less_less_eq => "<<="
  | .greater_greater_eq => ">>="
  | .dot => "."
  | .fat_arrow => "=>"
  | .at => "@"
  | .question => "?"
  | .kw_as => "as"
  | .kw_break => "break"
  | .kw_const => "const"
  | .kw_continue => "continue"
  | .kw_else => "else"
  | .kw_enum => "enum"
  | .kw_false => "false"
  | .kw_imm => "imm"
  | .kw_in_ => "in"
  | .kw_fn => "fn"
  | .kw_for => "for"
  | .kw_if => "if"
  | .kw_let => "let"
  | .kw_match => "match"
  | .kw_mod => "mod"
  | .kw_mut => "mut"
  | .kw_proj => "proj"
  | .kw_pub => "pub"
  | .kw_ret => "ret"
  | .kw_struct => "struct"
  | .kw_tensor => "tensor"
  | .kw_trait => "trait"
  | .kw_true => "true"
  | .kw_union => "union"
  | .kw_unsafe_ => "unsafe"
  | .kw_impl => "impl"
  | .kw_Self => "Self"
  | .kw_use => "use"
  | .kw_while => "while"
  | .reserved_dim => "reserved_dim"
  | .reserved_ref => "reserved_ref"
  | .reserved_return => "reserved_return"
  | .reserved_shape => "reserved_shape"
  | .reserved_sym => "reserved_sym"
  | .reserved_tsor => "reserved_tsor"
  | .reserved_type => "reserved_type"
  | .reserved_where => "reserved_where"
  | .arrow => "->"

def keywords : List (String × Token.Kind) :=
  [("as", .kw_as), ("break", .kw_break), ("const", .kw_const), ("continue", .kw_continue),
   ("else", .kw_else), ("enum", .kw_enum), ("false", .kw_false), ("imm", .kw_imm),
   ("in", .kw_in_), ("fn", .kw_fn), ("for", .kw_for), ("if", .kw_if), ("let", .kw_let),
   ("match", .kw_match), ("mod", .kw_mod), ("mut", .kw_mut), ("proj", .kw_proj),
   ("pub", .kw_pub), ("ret", .kw_ret), ("struct", .kw_struct), ("tensor", .kw_tensor),
   ("trait", .kw_trait), ("true", .kw_true), ("union", .kw_union), ("unsafe", .kw_unsafe_),
   ("impl", .kw_impl), ("Self", .kw_Self), ("use", .kw_use), ("while", .kw_while)]

def reservedKeywords : List String :=
  ["dim", "ref", "return", "shape", "sym", "tsor", "type", "where"]

structure Token where
  tokenKind : Token.Kind
  tokenSpan : Span
  deriving DecidableEq, Repr

inductive LexerError.Kind where
  | UnterminatedStringLiteral | UnterminatedCharLiteral | UnterminatedBlockComment
  | InvalidCharacter | InvalidEscapeSequence | InvalidUnicodeEscape | EmptyCharLiteral
  | MultiCharCharLiteral | InvalidNumericLiteral | TrailingNumericSeparator
  | ReservedKeyword | ReservedSymbol
  deriving DecidableEq, Repr

def getErrorString : LexerError.Kind → String
  | .UnterminatedStringLiteral => "unterminated_string_literal"
  | .UnterminatedCharLiteral => "unterminated_char_literal"
  | .UnterminatedBlockComment => "unterminated_block_comment"
  | .InvalidCharacter => "invalid_character"
  | .InvalidEscapeSequence => "invalid_escape_sequence"
  | .InvalidUnicodeEscape => "invalid_unicode_escape"
  | .EmptyCharLiteral => "empty_char_literal"
  | .MultiCharCharLiteral => "multi_char_literal"
  | .InvalidNumericLiteral => "invalid_numeric_literal"
  | .TrailingNumericSeparator => "trailing_numeric_separator"
  | .ReservedKeyword => "reserved_keyword"
  | .ReservedSymbol => "reserved_symbol"

structure LexerError where
  errorKind : LexerError.Kind
  errorSpan : Span
  deriving DecidableEq, Repr

/-- The variant the lexer returns: a token or an error. -/
inductive LexerItem where
  | token (t : Token)
  | error (e : LexerError)
  deriving DecidableEq, Repr

def LexerItem.span : LexerItem → Span
  | .token t => t.tokenSpan
  | .error e => e.errorSpan

def LexerItem.isEof : LexerItem → Bool
  | .token t => t.tokenKind == .eof
  | .error _ => false

end Eter
