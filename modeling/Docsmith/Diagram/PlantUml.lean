import Docsmith.Diagram.Naming
import Docsmith.Diagram.Uses
/-!
# Diagrams — PlantUML

A class diagram with the visibility, type and name of each field, the
visibility, result type, name and parameters of each method, and the
classes the class uses. The type of a member is read off its signature.
-/

namespace Docsmith.Diagram.PlantUml

/-- Words that may stand before a declared type and are none. -/
def modifiers : List String :=
  ["public", "private", "protected", "static", "final", "abstract", "synchronized", "native",
    "transient", "volatile", "strictfp", "default", "sealed", "non-sealed", "def", "async"]

/-- The word a class is introduced with. -/
def keyword (c : Element) : String :=
  let signature := String.ofList (Unicode.lower c.signature.toList)
  if Text.containsWord signature "interface" then "interface"
  else if Text.containsWord signature "abstract" then "abstract class"
  else if Text.containsWord signature "enum" then "enum"
  else "class"

/-- A type without its arguments and qualifiers, or what stands for none. -/
def typeOr (default : String) (text : List Char) : String :=
  let simple := simplify (String.ofList text)
  if simple.isEmpty then default else simple

/-- The annotation after a member's name at the start of its signature. -/
def annotation? (name signature : List Char) : Option (List Char) := do
  let rest ← Text.dropStart? name signature
  Text.dropStart? [':'] (Text.trimStart rest)

/-- The last word before a member's name that is neither a modifier nor an
annotation. -/
def declaredType? (name : String) (signature : List Char) : Option String :=
  let head := String.ofList (signature.takeWhile (· != '('))
  let words := (Text.words (stripQualifiers (stripGenerics head)).toList).map String.ofList
  match words.reverse.dropWhile (· != name) with
  | [] => none
  | _ :: before =>
    before.find? fun w => w.toList.head? != some '@' && !modifiers.contains w

/-- The type a diagram shows for a member: after the last arrow, after the
colon behind the name, or before the name, whichever is found first. -/
def memberType (m : Element) : String :=
  let default := if m.kind == .method then "void" else "Object"
  let signature := m.signature.toList
  match Text.splitLast? ['-', '>'] signature with
  | some (_, result) =>
    typeOr default (Text.trim (Text.dropAllEnd ':' (Text.trim result)))
  | none =>
    match annotation? m.name.toList signature with
    | some annotated => typeOr default (annotated.takeWhile (· != '='))
    | none => (declaredType? m.name signature).getD default

/-- The diagram of one class. -/
def render (v : View) (u : Uses) : String :=
  let name := v.type.name
  let node := identifier name
  let fields := v.fields.map fun f =>
    "  " ++ f.visibility.symbol ++ " " ++ memberType f ++ " " ++ f.name ++ "\n"
  let methods := v.methods.map fun m =>
    "  " ++ m.visibility.symbol ++ " " ++ memberType m ++ " " ++ m.name ++ "(" ++
      shorten (", ".intercalate m.parameters) ++ ")\n"
  let rule := if v.fields.isEmpty || v.methods.isEmpty then "" else "  --\n"
  let edges := (u.namesUsed v.type.qualifiedName).map fun target =>
    node ++ " ..> " ++ identifier target ++ " : uses\n"
  "@startuml " ++ name ++ "\n!theme plain\ntitle " ++ name ++ " Class Diagram\n\n" ++
    keyword v.type ++ " " ++ node ++ " \x7b\n" ++ String.join fields ++ rule ++
    String.join methods ++ "\x7d\n\n" ++ String.join edges ++ "\n@enduml\n"

end Docsmith.Diagram.PlantUml
