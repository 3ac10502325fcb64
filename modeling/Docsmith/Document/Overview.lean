import Docsmith.Analysis
import Docsmith.Document.Group
import Docsmith.Failure
/-!
# Documents — the overview

The main document of a run: numbers, every element under its file and
kind, and links to the documents of the first classes. When stages have
failed, the document ends with one line for each; when the overview itself
failed, its place is taken by an error text.
-/

namespace Docsmith.Document

/-- Most classes that the overview links to. -/
def quickLinks : Nat := 5

/-- The directory of the element documents. -/
def elementsDirectory : String := "elements"

namespace Overview

/-- A file's path below the project, if it lies there. -/
def shownPath (project file : String) : String :=
  (Path.below? project file).getD file

/-- The table of numbers. -/
def statistics (c : Analysis.Counts) : String :=
  let row (label : String) (n : Nat) : String := "| " ++ label ++ " | " ++ toString n ++ " |\n"
  "## Project Statistics\n\n" ++ c.summary ++ "\n\n| Element Type | Count |\n" ++
    "|--------------|-------|\n" ++ row "Classes" c.classes ++ row "Methods" c.methods ++
    row "Fields" c.fields ++ row "Files" c.files ++ "\n"

/-- One element of the reference. -/
def entry (e : Element) : String :=
  "- **" ++ e.name ++ "** - `" ++ e.signature ++ "`\n"

/-- The elements of one kind in a file, under the kind's heading. -/
def kindSection (elements : List Element) (kind : Element.Kind) : String :=
  match elements.filter (·.kind == kind) with
  | [] => ""
  | found => "#### " ++ kind.icon ++ " " ++ kind.description ++ "\n\n" ++
      String.join (found.map entry) ++ "\n"

/-- The elements of one file, by kind. -/
def fileSection (project : String) (file : String × List Element) : String :=
  "### " ++ shownPath project file.1 ++ "\n\n" ++
    String.join (Element.Kind.all.map (kindSection file.2))

/-- Every element under its file and kind. -/
def reference (a : Analysis) : String :=
  "## API Reference\n\n" ++
    if a.elements.isEmpty then "*No code elements found.*\n\n"
    else String.join (a.byFile.map (fileSection a.project))

/-- A link to a class's document. -/
def link (c : Element) : String :=
  "- [" ++ c.name ++ "](" ++ elementsDirectory ++ "/" ++ classFileName c.name ++ ")\n"

/-- Links to the documents of the first classes. -/
def links (a : Analysis) : String :=
  "## Usage Examples\n\n" ++
    "Detailed usage examples can be found in the individual element documentation files.\n\n" ++
    match a.classes.take quickLinks with
    | [] => ""
    | classes => "### Quick Links\n\n" ++ String.join (classes.map link) ++ "\n"

/-- The overview of an analysis. -/
def render (a : Analysis) (generatedOn : String) : String :=
  "# " ++ a.projectName ++ " - Code Documentation\n\nGenerated on: " ++ generatedOn ++
    "\n\nThis documentation was automatically generated using AI-powered code analysis.\n\n" ++
    statistics a.counts ++ reference a ++ links a

/-- Why a stage failed. -/
def diagnostic (o : Outcome) : String :=
  o.diagnostic.getD "unknown error"

/-- The line for a failed stage. -/
def bullet (o : Outcome) : String :=
  "- **" ++ o.stage ++ "**: " ++ diagnostic o ++ "\n"

/-- The main document after all stages have ended. -/
def compose (main : Outcome) (others : List Outcome) : String :=
  let failures := others.filter (!·.succeeded)
  let opening :=
    if main.succeeded then
      if failures.isEmpty then main.content
      else
        main.content ++ (if main.content.toList.getLast? == some '\n' then "" else "\n") ++
          "\n## Error Generating Documentation\n\n"
    else
      "# Error Generating Documentation\n\n" ++
        "There was an error generating the main documentation: " ++ diagnostic main ++ "\n" ++
        (if failures.isEmpty then "" else "\n")
  opening ++ String.join (failures.map bullet)

end Overview

end Docsmith.Document
