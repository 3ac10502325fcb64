import Docsmith.Document.Group
import Docsmith.Language
/-!
# Documents — the page of a group

A class's page shows what the models wrote about the class, its signature,
a table of contents and a section for each member; the page of elements
without a class has the sections only. The texts come in the order of the
group's elements.
-/

namespace Docsmith.Document

/-- What the models wrote about one element. -/
structure Texts where
  documentation : String := ""
  examples : String := ""
  deriving DecidableEq, Repr

namespace ElementPage

/-- A text without the blanks around it. -/
def trimmed (text : String) : String :=
  String.ofList (Text.trim text.toList)

/-- A signature in a fenced block, marked with the file's language. -/
def fenced (e : Element) : String :=
  "```" ++ (Language.ofPath e.file).fence ++ "\n" ++ e.signature ++ "\n```\n\n"

/-- A heading's anchor: ASCII letters in lower case, blanks as hyphens,
and nothing but letters, numerals, hyphens and underscores. -/
def anchor (name : String) : String :=
  String.ofList <| name.toList.filterMap fun c =>
    if Unicode.isAlphanumeric c || c == '-' || c == '_' then some c.toLower
    else if Text.isBlank c then some '-'
    else none

/-- A line of the table of contents. -/
def contentsLine (e : Element) : String :=
  "- [" ++ e.kind.icon ++ " " ++ e.name ++ "](#" ++ anchor e.name ++ ")\n"

/-- What a class's page starts with. -/
def classHeader (c : Element) (texts : Texts) (g : Group) : String :=
  "# " ++ c.kind.icon ++ " " ++ c.name ++ "\n\n> **Package:** `" ++
    c.owner?.getD "(default package)" ++ "`\n\n---\n\n## Class Documentation\n\n" ++
    trimmed texts.documentation ++ "\n\n---\n\n## Class Usage Examples\n\n" ++
    trimmed texts.examples ++ "\n\n---\n\n## Class Signature\n\n" ++ fenced c ++
    if g.fields.isEmpty && g.methods.isEmpty then ""
    else "## Table of Contents\n\n" ++ String.join ((g.fields ++ g.methods).map contentsLine) ++
      "\n---\n\n"

/-- What a page without a class starts with. -/
def standaloneHeader (g : Group) : String :=
  "# " ++ (if g.methods.isEmpty then "Standalone Fields" else "Standalone Methods") ++
    "\n\nElements that are not declared inside a class.\n\n---\n\n"

/-- The section of one member. -/
def memberSection (e : Element) (texts : Texts) : String :=
  "### " ++ e.name ++ "\n\n**Documentation:**\n\n" ++ trimmed texts.documentation ++
    "\n\n**Usage Examples:**\n\n" ++ trimmed texts.examples ++ "\n\n**Signature:**\n\n" ++
    fenced e ++ "---\n\n"

/-- The sections of the members of one kind, under a heading. -/
def memberSections (title : String) (members : List Element) (texts : List Texts) : String :=
  if members.isEmpty then ""
  else "## " ++ title ++ "\n\n" ++
    String.join ((members.zip texts).map fun (e, t) => memberSection e t)

/-- The page of a group with the texts of its elements. -/
def render (g : Group) (texts : List Texts) : String :=
  let (header, texts) := match g.type with
    | some c => (classHeader c (texts.head?.getD {}) g, texts.drop 1)
    | none => (standaloneHeader g, texts)
  header ++ memberSections "Fields" g.fields (texts.take g.fields.length) ++
    memberSections "Methods" g.methods (texts.drop g.fields.length)

end ElementPage

end Docsmith.Document
