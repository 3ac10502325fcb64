import Docsmith.Decimal.Shortest
import Docsmith.Document.ElementPage
/-!
# Documents — the page of unit tests

One section for each class and method, with the tests that the models
suggest, under the coverage that is aimed at in whole per cent.
-/

namespace Docsmith.Document.TestPage

open Decimal

/-- A number without decimal places; a half goes to the even neighbour. -/
def wholeText : Binary → String
  | .finite negative m e =>
    let (num, den) := scaleByTwo e m 1
    (if negative then "-" else "") ++ toString (roundDiv num den)
  | .infinite negative => if negative then "-inf" else "inf"
  | .nan => "NaN"

/-- The section of one element. -/
def testSection (e : Element) (tests : String) : String :=
  "## " ++ e.kind.icon ++ " " ++ e.qualifiedName ++ " (`" ++ e.file ++ "`)\n\n" ++
    ElementPage.trimmed tests ++ "\n\n"

/-- The page for a target coverage and the tests of some elements. -/
def render (coverage : Binary) (sections : List (Element × String)) : String :=
  "# Generated Unit Tests\n\n" ++
    "This file contains AI-generated unit test suggestions for the analyzed code.\n\n" ++
    "Target Coverage: " ++ wholeText (coverage.timesNat .double 100) ++ "%\n\n" ++
    String.join (sections.map fun (e, tests) => testSection e tests)

end Docsmith.Document.TestPage
