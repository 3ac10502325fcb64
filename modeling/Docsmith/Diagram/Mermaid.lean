import Docsmith.Diagram.Naming
import Docsmith.Diagram.Uses
/-!
# Diagrams — Mermaid

A class diagram in a fenced block of a Markdown page: the class with one
line for each member, then one line for each class it uses.
-/

namespace Docsmith.Diagram.Mermaid

/-- The page for one class. -/
def render (v : View) (u : Uses) (generatedOn : String) : String :=
  let name := v.type.name
  let node := identifier name
  let members := v.members.map fun m => "        " ++ shorten m.signature ++ "\n"
  let edges := (u.namesUsed v.type.qualifiedName).map fun target =>
    "    " ++ node ++ " --> " ++ identifier target ++ " : uses\n"
  "# " ++ name ++ " Class Diagram\n\n```mermaid\nclassDiagram\n    class " ++ node ++
    " \x7b\n" ++ String.join members ++ "    \x7d\n\n" ++ String.join edges ++
    "```\n\nGenerated on: " ++ generatedOn ++ "\n"

end Docsmith.Diagram.Mermaid
