import Docsmith.Language
import Docsmith.Source.Java.Declarations
import Docsmith.Source.Python.Declarations
import Docsmith.Source.Lines.Java
import Docsmith.Source.Lines.Python
/-!
# Sources

A source is read by its syntax where it has one, and by its lines where it
has none or gives no element.
-/

/-! ## By syntax

The elements of a source that its language's grammar accepts.
-/

namespace Docsmith.Source.Syntax

/-- The elements of a source in a language. -/
def read (language : Language) (path content : String) : Except Failure (List Element) :=
  match language with
  | .java => Java.read path content
  | .python => Python.read path content
  | .unknown => .error (.parse "" ("No parser available for language: " ++ language.displayName))

end Docsmith.Source.Syntax

/-! ## By lines

Line by line, without a syntax tree, so that a broken source gives
elements too.
-/

namespace Docsmith.Source.Lines

/-- The elements of a source; its path tells the language. -/
def read (path content : String) : List Element :=
  match Language.ofPath path with
  | .python => Python.read path content.toList
  | .java => Java.read path content.toList
  | .unknown => []

end Docsmith.Source.Lines

/-! ## Either way -/

namespace Docsmith.Source

/-- The elements of a source file; files of other languages have none. -/
def elements (path content : String) : List Element :=
  let language := Language.ofPath path
  if !language.isKnown then []
  else
    match Syntax.read language path content with
    | .ok (e :: rest) => e :: rest
    | _ => Lines.read path content

end Docsmith.Source
