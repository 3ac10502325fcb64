import Docsmith.Model.Protocol
import Docsmith.Prompt
/-!
# Models — one request to every backend

A request about an element goes to every backend at once, one call each.
What comes back is merged in the order of the backends, whatever order the
replies came in: the text of the only backend that gave one, or the texts
under the backends' names, or one diagnostic a backend where none did.
-/

namespace Docsmith.Model

/-- What one backend contributed. -/
inductive Contribution where
  | text (backend content : String)
  | fault (backend diagnostic : String)
  deriving DecidableEq, Repr

namespace Contribution

/-- Backend and text, where there is one. -/
def text? : Contribution → Option (String × String)
  | .text backend content => some (backend, content)
  | .fault _ _ => none

/-- The diagnostic, where there is one. -/
def diagnostic? : Contribution → Option String
  | .text _ _ => none
  | .fault _ diagnostic => some diagnostic

/-- One text for the reader. -/
def merge (contributions : List Contribution) : String :=
  match contributions.filterMap text? with
  | [] => "\n".intercalate (contributions.filterMap diagnostic?)
  | [(_, content)] => content
  | texts => "\n\n".intercalate (texts.map fun (backend, content) =>
      "### " ++ backend ++ "\n\n" ++ content)

end Contribution

/-- One call of one backend. -/
structure Call where
  backend : Config.Backend
  endpoint : String
  payload : Json

/-- The call of a backend for a prompt. -/
def Call.ofPrompt (prompt : String) (b : Config.Backend) : Call :=
  let p := Protocol.ofBackend b
  ⟨b, p.endpoint b.baseUrl, p.payload b prompt⟩

/-- What a call's reply contributes. -/
def Call.contribution (c : Call) (purpose : Purpose) (reply : Except Failure String) :
    Contribution :=
  let fault (cause : String) : Contribution :=
    .fault c.backend.name
      ("Error generating " ++ purpose.label ++ " with " ++ c.backend.name ++ ": " ++ cause)
  match reply with
  | .error f => fault f.cause
  | .ok body =>
    let content := (Protocol.ofBackend c.backend).text body
    if Text.isBlankText content.toList then fault "empty response"
    else .text c.backend.name content

/-- What is asked of the backends about an element; no backends at all is
different from an empty list of them. -/
structure Request where
  backends : Option (List Config.Backend)
  element : Element
  purpose : Purpose

namespace Request

/-- The answer where there is no configuration. -/
def unconfigured : String :=
  "Error: LLM configuration is null. Please check the application configuration."

/-- The answer where the configuration has no backend. -/
def noBackend (purpose : Purpose) : String :=
  "No LLM models configured for " ++ purpose.generationLabel ++ " generation."

/-- The calls of a request, one a backend. -/
def calls (r : Request) : List Call :=
  (r.backends.getD []).map (Call.ofPrompt (r.purpose.prompt r.element))

/-- The answer to a request, from the replies to its calls. -/
def answer (r : Request) (replies : List (Except Failure String)) : String :=
  match r.backends with
  | none => unconfigured
  | some [] => noBackend r.purpose
  | some _ => Contribution.merge ((r.calls.zip replies).map fun (c, reply) =>
      c.contribution r.purpose reply)

/-- The answer where each call has its reply. -/
def run (r : Request) (reply : Call → Except Failure String) : String :=
  r.answer (r.calls.map reply)

end Request

end Docsmith.Model
