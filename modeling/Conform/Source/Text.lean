import Conform.Bytes.Quoted
import Conform.Source.Emit
import Conform.Source.Name
import Conform.Source.Prose
import Conform.Ty.Render

/-! The source text of a predicate: a file with one function that reports whether
its argument is accepted. -/
namespace Conform.Source

def varName (var : Nat) : Bytes := if var = 0 then "v" else "v" ++ decimalNat var

def tabs (depth : Nat) : Bytes := List.replicate depth 0x09

def Family.testName : Family → Bytes
  | .bool => "IsBool"
  | .integer => "IsInteger"
  | .float => "IsFloat"
  | .string => "IsString"

/-- A float constant; it always reads as a float. -/
def floatConstant (x : Double) : Bytes :=
  match x with
  | .infinite negative => if negative then "math.Inf(-1)" else "math.Inf(1)"
  | x =>
    let text := x.text .general
    if text.contains 0x2E || text.contains 0x65 then text else text ++ ".0"

def truthText (b : Bool) : Bytes := if b then "true" else "false"

/-- One check of a shape, as a composite of its three members. -/
def checkText (depth : Nat) (key : Bytes) (optional : Bool) (predicate : Bytes) : Bytes :=
  "\x7b\n" ++ tabs (depth + 1) ++ "Accepts: " ++ predicate ++ ",\n" ++
    tabs (depth + 1) ++ "Key:      " ++ quoted key ++ ",\n" ++
    tabs (depth + 1) ++ "Optional: " ++ truthText optional ++ ",\n" ++ tabs depth ++ "\x7d"

mutual

/-- The text of an expression in a line that is indented by the depth. -/
def Expr.text (depth : Nat) : Expr → Bytes
  | .always => "true"
  | .never => "false"
  | .isNull var => varName var ++ " == nil"
  | .isFamily family var => "types." ++ family.testName ++ "(" ++ varName var ++ ")"
  | .equalsBool var value => varName var ++ " == " ++ truthText value
  | .equalsInteger var value =>
    "types.IntegerEquals(" ++ varName var ++ ", int64(" ++ decimalInt value.toInt ++ "))"
  | .equalsFloat var value => "types.FloatEquals(" ++ varName var ++ ", " ++ floatConstant value ++ ")"
  | .equalsText var value => varName var ++ " == " ++ quoted value
  | .any members => "(" ++ Bytes.join " || " (Expr.texts depth members) ++ ")"
  | .acceptsArray var key value =>
    "types.AcceptsArray(" ++ varName var ++ ", " ++ key.text depth ++ ", " ++ value.text depth ++ ")"
  | .acceptsList var element => "types.AcceptsList(" ++ varName var ++ ", " ++ element.text depth ++ ")"
  | .acceptsShape var fields =>
    "types.AcceptsShape(" ++ varName var ++ ", []types.ShapeCheck\x7b" ++
      Bytes.join ", " (Predicate.fieldTexts depth fields) ++ "\x7d)"

def Expr.texts (depth : Nat) : List Expr → List Bytes
  | [] => []
  | e :: rest => e.text depth :: Expr.texts depth rest

def Predicate.text (depth : Nat) : Predicate → Bytes
  | .mk param body =>
    "func(" ++ varName param ++ " interface\x7b\x7d) bool \x7b\n" ++ tabs (depth + 1) ++ "return " ++
      body.text (depth + 1) ++ "\n" ++ tabs depth ++ "\x7d"

def Predicate.fieldTexts (depth : Nat) : List (Field Predicate) → List Bytes
  | [] => []
  | f :: rest =>
    checkText depth f.key f.optional (f.type.text (depth + 1)) :: Predicate.fieldTexts depth rest

end

mutual

/-- The expression calls a test of the library. -/
def Expr.callsLibrary : Expr → Bool
  | .isFamily .. => true
  | .equalsInteger .. => true
  | .equalsFloat .. => true
  | .acceptsArray .. => true
  | .acceptsList .. => true
  | .acceptsShape .. => true
  | .any members => Expr.someCallsLibrary members
  | _ => false

def Expr.someCallsLibrary : List Expr → Bool
  | [] => false
  | e :: rest => e.callsLibrary || Expr.someCallsLibrary rest

end

mutual

/-- The expression compares with an infinity. -/
def Expr.namesInfinity : Expr → Bool
  | .equalsFloat _ (.infinite _) => true
  | .any members => Expr.someNamesInfinity members
  | .acceptsArray _ key value => key.namesInfinity || value.namesInfinity
  | .acceptsList _ element => element.namesInfinity
  | .acceptsShape _ fields => Predicate.someNamesInfinity fields
  | _ => false

def Expr.someNamesInfinity : List Expr → Bool
  | [] => false
  | e :: rest => e.namesInfinity || Expr.someNamesInfinity rest

def Predicate.namesInfinity : Predicate → Bool
  | .mk _ body => body.namesInfinity

def Predicate.someNamesInfinity : List (Field Predicate) → Bool
  | [] => false
  | f :: rest => f.type.namesInfinity || Predicate.someNamesInfinity rest

end

/-- The imports that an expression needs. -/
def importText (body : Expr) : Bytes :=
  if body.namesInfinity then
    "import (\n\ttypes \"github.com/broady/valtype/types\"\n\t\"math\"\n)\n\n"
  else if body.callsLibrary then "import types \"github.com/broady/valtype/types\"\n\n"
  else []

/-- A comment holds only characters that source text may hold. -/
def isCommentText (text : Bytes) : Bool :=
  (Utf8.pieces text).all fun
    | .char code _ => code != 0 && code != 0xFEFF
    | .stray _ => false

def containsCommentEnd : Bytes → Bool
  | 0x2A :: 0x2F :: _ => true
  | _ :: rest => containsCommentEnd rest
  | [] => false

/-- The text without carriage returns, but of those between a star and a slash in
a block the last one stays. -/
def withoutReturns (block : Bool) : Option UInt8 → Bytes → Bytes
  | _, [] => []
  | last, b :: rest =>
    if b ≠ 0x0D ∨ (block ∧ last = some 0x2A ∧ rest.head? = some 0x2F) then
      b :: withoutReturns block (some b) rest
    else withoutReturns block last rest

/-- The control characters and blanks that two lines start with. -/
def commonIndent : Bytes → Bytes → Bytes
  | a :: as, b :: bs => if a = b ∧ a ≤ 0x20 then a :: commonIndent as bs else []
  | _, _ => []

/-- An indentation without its last three spaces, or without a tab at its end. -/
def lessIndent (indent : Bytes) : Bytes :=
  let spaces := (indent.reverse.takeWhile (· == 0x20)).length
  if 0 < spaces then indent.take (indent.length - min spaces 3)
  else if indent.getLast? = some 0x09 then indent.dropLast
  else indent

/-- The lines of a block as they are written: those of control characters and
spaces only are empty, the others lose the indentation they share but for the
last of it, and the blanks at their ends. -/
def blockLines (lines : List Bytes) : List Bytes :=
  let lines := lines.map fun line => if line.all (· ≤ 0x20) then [] else line
  let shared :=
    match lines.filter fun line => !line.isEmpty with
    | [] => []
    | first :: rest => lessIndent (rest.foldl commonIndent (commonIndent first first))
  lines.map fun line => Utf8.trimRight (line.drop shared.length)

/-- The comment before the function: a line comment, or a block when the text has
several lines. It has none when its text would end the block or is no source
text. The text is laid out as prose unless carriage returns were taken out of it.
A block that is not laid out counts its form feeds as line ends: with one of them
the function follows on the line where the block ends. -/
def commentText? (text : Bytes) : Option Bytes :=
  let block := text.contains 0x0A
  let plain := withoutReturns block none text
  let lines := linesOf (if plain = text then prose text else plain ++ [0x0A])
  if !isCommentText text then none
  else if block then
    let written := Bytes.join "\n" (blockLines lines)
    let last : Bytes := if plain ≠ text ∧ written.contains 0x0C then [] else "\n"
    if containsCommentEnd text then none else some (utf8 "/*\n" ++ written ++ utf8 "*/" ++ last)
  else some (lines.dropLast.flatMap fun line => utf8 "// " ++ Utf8.trimRight line ++ utf8 "\n")

/-- Blanks and line ends between the words of a source text. -/
def isSourceBlank (b : UInt8) : Bool := b == 0x20 || b == 0x09 || b == 0x0D || b == 0x0A

/-- What is written between a keyword and the name that a text holds: a blank, or
up to two line ends if there are any before the name. -/
def nameGap (text : Bytes) : Bytes :=
  match ((text.takeWhile isSourceBlank).filter (· == 0x0A)).take 2 with
  | [] => [0x20]
  | ends => ends

/-- The name of a package, around which there may be blanks and line ends. -/
def packageIn (text : Bytes) : Bytes :=
  ((text.dropWhile isSourceBlank).reverse.dropWhile isSourceBlank).reverse

/-- The name of a function. No line may end between it and its parameters. -/
def functionIn (text : Bytes) : Bytes :=
  ((text.dropWhile isSourceBlank).reverse.dropWhile fun b => isSourceBlank b && b != 0x0A).reverse

/-- The file that declares the predicate under the given names. -/
def fileText? (packageText functionText signature : Bytes) (body : Expr) : Option Bytes :=
  let packageName := packageIn packageText
  let functionName := functionIn functionText
  let about := functionText ++ utf8 " reports whether v is accepted by `" ++ signature ++ utf8 "`."
  if !(isName packageName && isName functionName) then none
  else
    match commentText? about with
    | none => none
    | some comment =>
      some ("// Code generated by valtype. DO NOT EDIT.\n\npackage" ++ nameGap packageText ++ packageName ++
        "\n\n" ++ importText body ++ comment ++ "func" ++ nameGap functionText ++ functionName ++
        "(v interface\x7b\x7d) bool \x7b\n\treturn " ++ body.text 1 ++ "\n\x7d\n")

end Conform.Source
