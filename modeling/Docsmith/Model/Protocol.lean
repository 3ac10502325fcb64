import Docsmith.Config.Basic
import Docsmith.Json.Printer
import Docsmith.Json.Reader
import Docsmith.Unicode.Lowercase
/-!
# Models — the protocols backends speak

A backend speaks one of three protocols, which fix where a request goes,
what it holds and where the answer's text stands. The provider's name
decides if it is one of the two known ones, and else address and model
name do. Further fields of a request never replace its own.
-/

namespace Docsmith.Model

/-- What a backend speaks. -/
inductive Protocol where
  | ollama
  | openAi
  | generic
  deriving DecidableEq, Repr

namespace Protocol

/-- The protocol's name. -/
def name : Protocol → String
  | .ollama => "ollama"
  | .openAi => "openai"
  | .generic => "generic"

/-- All protocols. -/
def all : List Protocol :=
  [.ollama, .openAi, .generic]

/-- What the names of models start with that the first protocol serves. -/
def localModels : List String :=
  ["llama", "mistral", "codellama"]

/-- The port of the first protocol's servers. -/
def localPort : String := "11434"

/-- The protocol of an address and a model name, both in lower case. -/
def ofAddress (url name : List Char) : Protocol :=
  if Text.occurs "ollama".toList url || Text.occurs localPort.toList url ||
      localModels.any (fun start => (Text.dropStart? start.toList name).isSome) then .ollama
  else if Text.occurs "openai".toList url || (Text.dropStart? "gpt-".toList name).isSome then
    .openAi
  else .generic

/-- The protocol of a backend. -/
def ofBackend (b : Config.Backend) : Protocol :=
  let provider := Unicode.lower (Text.trim b.provider.toList)
  if provider = "ollama".toList then .ollama
  else if provider = "openai".toList then .openAi
  else ofAddress (Unicode.lower b.baseUrl.toList) (Unicode.lower b.name.toList)

/-- What follows the base address: `base` is without blanks around it and
slashes at its end. -/
def tail (p : Protocol) (base : List Char) : String :=
  match p with
  | .ollama => "/api/generate"
  | .openAi =>
    if Text.endsWith "/v1".toList base then "/chat/completions" else "/v1/chat/completions"
  | .generic => ""

/-- Where requests go. -/
def endpoint (p : Protocol) (baseUrl : String) : String :=
  let base := Text.dropAllEnd '/' (Text.trim baseUrl.toList)
  String.ofList base ++ p.tail base

/-- The temperature as a number of sixty-four bits; one that is not finite
cannot be told. -/
def temperature (b : Config.Backend) : Json :=
  if b.temperature.isFinite then .number (.float b.temperature) else .null

/-- The fields every request of a protocol has. -/
def ownFields (p : Protocol) (b : Config.Backend) (prompt : String) : List (String × Json) :=
  match p with
  | .ollama =>
    [("model", .string b.name),
      ("options", .ofFields [("num_predict", .ofNat b.maxTokens), ("temperature", temperature b)]),
      ("prompt", .string prompt), ("stream", .bool false)]
  | .openAi =>
    [("max_tokens", .ofNat b.maxTokens),
      ("messages", .array [.ofFields [("content", .string prompt), ("role", .string "user")]]),
      ("model", .string b.name), ("temperature", temperature b)]
  | .generic =>
    [("max_tokens", .ofNat b.maxTokens), ("prompt", .string prompt),
      ("temperature", temperature b)]

/-- A field that no other one of its name stands before. -/
def addField (fields : List (String × Json)) (extra : String × Json) : List (String × Json) :=
  match Ordered.find? extra.1 fields with
  | some _ => fields
  | none => Ordered.insert extra.1 extra.2 fields

/-- What a request holds. -/
def payload (p : Protocol) (b : Config.Backend) (prompt : String) : Json :=
  .object (b.extra.foldl addField (p.ownFields b prompt))

/-- The fields that may hold a generic answer's text. -/
def textFields : List String :=
  ["text", "content", "response", "output", "result"]

/-- The text in an answer, where there is one. -/
def textOf? (p : Protocol) (answer : Json) : Option String :=
  match p with
  | .ollama => (answer.get? "response").bind Json.text?
  | .openAi =>
    ((answer.at? ["choices", "0", "message", "content"]).bind Json.text?).or
      ((answer.at? ["choices", "0", "text"]).bind Json.text?)
  | .generic => textFields.findSome? fun field => (answer.get? field).bind Json.text?

/-- The text of an answer's body. A body that is no JSON or holds no text is
the text itself. -/
def text (p : Protocol) (body : String) : String :=
  ((Json.parse? body).bind p.textOf?).getD body

end Protocol

end Docsmith.Model
