import Conform.Ty

/-! Types as text. The written form keeps the quoting style of string literals.
The signature is a second form that tells apart any two types that differ in
more than quoting: every string literal is in single quotes, and an array key
narrowed to one kind says so. -/
namespace Conform

/-- A text between quotes, with the quote and the backslash escaped. -/
def quoteWith (quote : UInt8) (text : Bytes) : Bytes :=
  quote :: text.flatMap (fun b => if b = quote ∨ b = 0x5C then [0x5C, b] else [b]) ++ [quote]

/-- An ASCII letter or underscore. -/
def startsWord (b : UInt8) : Bool := b == 0x5F || isLower b || isUpper b

/-- A shape key that needs no quotes: an integer literal or an ASCII word. -/
def isBareKey (key : Bytes) : Bool :=
  isIntegerForm key ||
    match key with
    | [] => false
    | b :: rest => startsWord b && rest.all fun c => startsWord c || isDigit c

/-- The two renderings of types. -/
inductive Style where
  | written | signature
  deriving DecidableEq, Repr

def KeyKind.word : KeyKind → Bytes
  | .any => "array-key"
  | .integer => "int"
  | .string => "string"

def KeyKind.render : Style → KeyKind → Bytes
  | .written, kind => kind.word
  | .signature, .any => "array-key"
  | .signature, kind => "array-key<" ++ kind.word ++ ">"

def Quote.render (quote : Quote) (text : Bytes) : Bytes :=
  match quote with
  | .none => text
  | .single => quoteWith 0x27 text
  | .double => quoteWith 0x22 text

namespace Ty

def renderArray (key : KeyKind) (isMixed : Bool) (value : Bytes) : Bytes :=
  match key with
  | .any => if isMixed then "array" else "array<" ++ value ++ ">"
  | key => "array<" ++ key.word ++ ", " ++ value ++ ">"

def renderField (key : Bytes) (optional : Bool) (type : Bytes) : Bytes :=
  (if isBareKey key then key else quoteWith 0x27 key) ++ (if optional then [0x3F] else []) ++
    utf8 ": " ++ type

mutual

def render (style : Style) : Ty → Bytes
  | .mixed => "mixed"
  | .null => "null"
  | .bool => "bool"
  | .integer => "int"
  | .float => "float"
  | .string => "string"
  | .boolLit value => if value then "true" else "false"
  | .integerLit value => decimalInt value.toInt
  | .floatLit value => value.literalText
  | .stringLit value quote =>
    match style with
    | .written => quote.render value
    | .signature => quoteWith 0x27 value
  | .arrayKey kind => kind.render style
  | .union members => Bytes.join "|" (renderAll style members)
  | .array key value => renderArray key value.isMixed (value.render style)
  | .list value => if value.isMixed then "list" else "list<" ++ value.render style ++ ">"
  | .shape fields => "array\x7b" ++ Bytes.join ", " (renderFields style fields) ++ "\x7d"
  | .unknown name _ => name

def renderAll (style : Style) : List Ty → List Bytes
  | [] => []
  | t :: rest => t.render style :: renderAll style rest

def renderFields (style : Style) : List (Field Ty) → List Bytes
  | [] => []
  | f :: rest => renderField f.key f.optional (f.type.render style) :: renderFields style rest

end

/-- The written form. -/
def text (t : Ty) : Bytes := t.render .written

/-- The canonical form, which names a type in caches and artifacts. -/
def signature (t : Ty) : Bytes := t.render .signature

end Ty

end Conform
