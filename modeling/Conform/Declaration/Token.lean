import Conform.Ty

/-! The tokens of declarations. A token keeps the text it was cut from and the
offset of that text, so that messages can point at it. -/
namespace Conform.Declaration

inductive TokenKind where
  | eof | name | integer | float | string
  | or | question | lbrack | rbrack | lss | gtr | lbrace | rbrace | comma | colon
  deriving DecidableEq, Repr

namespace TokenKind

def text : TokenKind → Bytes
  | .eof => "EOF"
  | .name => "name"
  | .integer => "integer"
  | .float => "float"
  | .string => "string"
  | .or => "|"
  | .question => "?"
  | .lbrack => "["
  | .rbrack => "]"
  | .lss => "<"
  | .gtr => ">"
  | .lbrace => "\x7b"
  | .rbrace => "\x7d"
  | .comma => ","
  | .colon => ":"

/-- The kinds in the order of their numbers. -/
def all : List TokenKind :=
  [.eof, .name, .integer, .float, .string, .or, .question, .lbrack, .rbrack, .lss, .gtr, .lbrace,
    .rbrace, .comma, .colon]

/-- The text of the kind with a number, or the number itself. -/
def textOfNumber (n : Nat) : Bytes :=
  match all[n]? with
  | some kind => kind.text
  | none => "Token(" ++ decimalNat n ++ ")"

/-- The kind of a punctuation character. -/
def ofOctet? (b : UInt8) : Option TokenKind :=
  if b = octet '|' then some .or
  else if b = octet '?' then some .question
  else if b = octet '[' then some .lbrack
  else if b = octet ']' then some .rbrack
  else if b = octet '<' then some .lss
  else if b = octet '>' then some .gtr
  else if b = octet '\x7b' then some .lbrace
  else if b = octet '\x7d' then some .rbrace
  else if b = octet ',' then some .comma
  else if b = octet ':' then some .colon
  else none

end TokenKind

/-- A token: the name, number text or unquoted content it stands for, its source
text with quotes, its offset, and the quotes of a string. -/
structure Token where
  kind : TokenKind
  literal : Bytes
  raw : Bytes
  position : Nat
  quote : Quote
  deriving DecidableEq, Repr

end Conform.Declaration
