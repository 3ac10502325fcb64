import Docsmith.Path
import Docsmith.Unicode.Lowercase
/-!
# Languages

The languages whose sources are read. A file's language is told by its
extension; in a configuration a language goes by its name.
-/

namespace Docsmith

/-- The language of a source file. -/
inductive Language where
  | java
  | python
  | unknown
  deriving DecidableEq, Repr

namespace Language

/-- The languages with a reader. -/
def known : List Language :=
  [.java, .python]

/-- The name shown to a reader. -/
def displayName : Language → String
  | .java => "Java"
  | .python => "Python"
  | .unknown => "Unknown"

/-- The name a fenced block of code is marked with. -/
def fence : Language → String
  | .java => "java"
  | .python => "python"
  | .unknown => "text"

/-- The extensions of a language's files. -/
def extensions : Language → List String
  | .java => ["java"]
  | .python => ["py", "pyi", "pyw"]
  | .unknown => []

/-- The names a language goes by in a configuration. -/
def aliases : Language → List String
  | .java => ["java"]
  | .python => ["python", "py"]
  | .unknown => ["unknown", "text"]

/-- The language of files with an extension, in any case. -/
def ofExtension (extension : String) : Language :=
  let lowered := String.ofList (Unicode.lower extension.toList)
  (known.find? (·.extensions.contains lowered)).getD .unknown

/-- The language of a file. -/
def ofPath (path : String) : Language :=
  match Path.extension? path with
  | some extension => ofExtension extension
  | none => .unknown

/-- What is said of a name no language goes by. -/
def unsupported (name : String) : String :=
  "Unsupported language: " ++ name ++ ". Supported: java, python"

/-- The language with a name, in any case and with blanks around it. -/
def ofName (name : String) : Except String Language :=
  let lowered := String.ofList (Unicode.lower (Text.trim name.toList))
  match known.find? (·.aliases.contains lowered) with
  | some language => .ok language
  | none => .error (unsupported name)

/-- There is a reader for the language. -/
def isKnown (l : Language) : Bool :=
  l != .unknown

end Language

end Docsmith
