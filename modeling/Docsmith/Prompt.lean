import Docsmith.Element.Basic
/-!
# Prompts

A model is asked for one of three things about an element. The prompt
names the kind of element, gives its context and tells what to provide.
-/

namespace Docsmith

/-- What a model is asked for. -/
inductive Purpose where
  | documentation
  | usageExamples
  | unitTests
  deriving DecidableEq, Repr

namespace Purpose

/-- All purposes. -/
def all : List Purpose :=
  [.documentation, .usageExamples, .unitTests]

/-- The purpose in the diagnostic of a failed call. -/
def label : Purpose → String
  | .documentation => "documentation"
  | .usageExamples => "usage examples"
  | .unitTests => "unit tests"

/-- The purpose in the notice that no model is configured. -/
def generationLabel : Purpose → String
  | .documentation => "documentation"
  | .usageExamples => "example"
  | .unitTests => "unit test"

/-- What the prompt starts with. -/
def request : Purpose → String
  | .documentation => "Analyze and document this "
  | .usageExamples => "Generate practical usage examples for this "
  | .unitTests => "Generate comprehensive unit tests for this "

/-- What the prompt asks to provide. -/
def wish : Purpose → String
  | .documentation => "description, parameters, return value, usage notes."
  | .usageExamples => "2-3 examples with sample data, expected outputs, use cases."
  | .unitTests => "normal cases, edge cases, error handling tests."

/-- The prompt about an element. -/
def prompt (p : Purpose) (e : Element) : String :=
  p.request ++ String.ofList (Unicode.lower e.kind.description.toList) ++ ":\n\n" ++ e.context ++
    "\n\nProvide: " ++ p.wish

end Purpose

end Docsmith
