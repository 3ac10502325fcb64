import Docsmith.Failure
import Docsmith.Text.Word
/-!
# Diagrams — names and member text

The names of diagram files and identifiers, which keep ASCII letters and
digits and replace what is not allowed, and the text of a member, which
loses type arguments and qualifiers and is cut to fifty characters.
-/

namespace Docsmith

/-- How the files of one diagram format are named: what stands before and
after the class name, and the extension. -/
structure Diagram.Naming where
  before : String := ""
  after : Option String := none
  extension : Option String := none
  deriving DecidableEq, Repr

namespace Diagram

open Unicode

/-- Most characters before or after a class name. -/
def maxAffix : Nat := 20

/-- Most characters of an extension. -/
def maxExtension : Nat := 10

/-- Most characters of a member's text. -/
def maxMember : Nat := 50

/-- What a cut text ends with. -/
def ellipsis : List Char := ['.', '.', '.']

/-- What stands after the class name unless something else is asked for. -/
def defaultAfter : String := "_diagram"

/-- An ASCII letter or digit. -/
def isPlain (c : Char) : Bool :=
  c.isAlphanum

/-- May stand before or after a class name. -/
def isAffixChar (c : Char) : Bool :=
  isPlain c || c == '-' || c == '_' || c == '.' || c == '(' || c == ')' || c == '+' || c == ' '

/-- Refuses an affix that is too long or holds a character that is not
allowed; the length is looked at first. -/
def checkAffix (label value : String) : Except Failure Unit :=
  if maxAffix < value.length then
    .error (.config ("Diagram " ++ label ++ " '" ++ value ++ "' exceeds " ++ toString maxAffix ++
      " characters"))
  else
    match value.toList.find? (!isAffixChar ·) with
    | some bad => .error (.config ("Diagram " ++ label ++ " '" ++ value ++
        "' contains invalid character '" ++ String.ofList [bad] ++ "'"))
    | none => .ok ()

/-- Refuses an extension that is empty, too long or holds anything but
ASCII letters and digits. -/
def checkExtension (value : String) : Except Failure Unit :=
  if value.isEmpty || maxExtension < value.utf8ByteSize || !value.toList.all isPlain then
    .error (.config ("Diagram extension '" ++ value ++ "' must be 1-" ++ toString maxExtension ++
      " alphanumeric characters"))
  else .ok ()

/-- Refuses a naming with a bad part: before, after, extension. -/
def Naming.check (n : Naming) : Except Failure Unit := do
  checkAffix "prefix" n.before
  if let some after := n.after then
    checkAffix "suffix" after
  if let some extension := n.extension then
    checkExtension extension

/-- What stands after the class name. -/
def Naming.afterOrDefault (n : Naming) : String :=
  n.after.getD defaultAfter

/-- The extension, or the format's own where none is set. -/
def Naming.extensionOr (n : Naming) (default : String) : String :=
  match n.extension with
  | some extension => if extension.isEmpty then default else extension
  | none => default

/-- A class name as part of a file name: dots stay. -/
def fileStem (name : String) : String :=
  name.map fun c => if isPlain c || c == '_' || c == '.' then c else '_'

/-- A class name as an identifier. -/
def identifier (name : String) : String :=
  name.map fun c => if isPlain c || c == '_' then c else '_'

/-- The file name of a class's diagram. -/
def Naming.fileName (n : Naming) (className default : String) : String :=
  n.before ++ fileStem className ++ n.afterOrDefault ++ "." ++ n.extensionOr default

/-- Drops what stands between angle brackets, which may nest; a closing
bracket without an opening one stays. -/
def dropGenerics : Nat → List Char → List Char
  | _, [] => []
  | depth, '<' :: text => dropGenerics (depth + 1) text
  | depth + 1, '>' :: text => dropGenerics depth text
  | 0, c :: text => c :: dropGenerics 0 text
  | depth + 1, _ :: text => dropGenerics (depth + 1) text

/-- Without type arguments. -/
def stripGenerics (text : String) : String :=
  String.ofList (dropGenerics 0 text.toList)

/-- May start an identifier. -/
def startsIdent (c : Char) : Bool :=
  isAlphabetic c || c == '_'

/-- A dot and the start of an identifier stand next. -/
def qualifies : List Char → Bool
  | '.' :: c :: _ => startsIdent c
  | _ => false

/-- Drops each identifier that a dot and another identifier follow, dot
included; `inside` tells that an identifier character stands before. -/
def dropQualifiers (inside : Bool) : List Char → List Char
  | [] => []
  | c :: text =>
    if !inside && startsIdent c then
      let more := text.takeWhile isIdentChar
      let rest := text.dropWhile isIdentChar
      if qualifies rest then dropQualifiers false (rest.drop 1)
      else c :: more ++ dropQualifiers true rest
    else c :: dropQualifiers (isIdentChar c) text
termination_by text => text.length
decreasing_by
  all_goals
    have := (List.dropWhile_sublist isIdentChar (l := text)).length_le
    simp only [List.length_cons, List.length_drop]
    omega

/-- Without qualifiers. -/
def stripQualifiers (text : String) : String :=
  String.ofList (dropQualifiers false text.toList)

/-- Cuts a text to `maxMember` characters, the last three of them dots. -/
def truncate (text : String) : String :=
  if text.length ≤ maxMember then text
  else String.ofList (text.toList.take (maxMember - ellipsis.length) ++ ellipsis)

/-- Without type arguments and qualifiers, with single spaces. -/
def simplify (text : String) : String :=
  String.ofList (Text.collapse (stripQualifiers (stripGenerics text)).toList)

/-- A member's text in a diagram. -/
def shorten (text : String) : String :=
  truncate (simplify text)

end Diagram

end Docsmith
