import Docsmith.Config.Basic
import Docsmith.Json.Printer
import Docsmith.Text.Quoted
/-!
# Configurations — a backend in a log

One line that shows every field of a backend but the key, of which it
tells only whether there is one.
-/

namespace Docsmith

open Decimal

/-- Numbers in a log are positional from 1e-4 to 1e16. -/
def Decimal.Layout.log : Layout := ⟨-4, 16, true⟩

/-- A number of thirty-two bits in a log. -/
def Decimal.Binary.logText : Binary → String
  | .finite negative m e => String.ofList (Layout.log.write negative (shortest .single m e))
  | x => String.ofList (x.plainText .single)

mutual

/-- A value with the name of its kind. -/
def Json.logText : Json → String
  | .null => "Null"
  | .bool b => "Bool(" ++ (if b then "true" else "false") ++ ")"
  | .number n => "Number(" ++ String.ofList n.write ++ ")"
  | .string s => "String(" ++ Text.quoted s ++ ")"
  | .array items => "Array [" ++ ", ".intercalate (Json.itemsLog items) ++ "]"
  | .object fields => "Object \x7b" ++ ", ".intercalate (Json.fieldsLog fields) ++ "\x7d"

/-- The items of an array. -/
def Json.itemsLog : List Json → List String
  | [] => []
  | item :: items => item.logText :: Json.itemsLog items

/-- The fields of an object. -/
def Json.fieldsLog : List (String × Json) → List String
  | [] => []
  | (name, value) :: fields =>
    (Text.quoted name ++ ": " ++ value.logText) :: Json.fieldsLog fields

end

/-- What stands for a key. -/
def Config.hiddenKey : String := "[REDACTED]"

/-- A backend in a log. -/
def Config.Backend.logText (b : Config.Backend) : String :=
  let key := match b.apiKey with
    | some _ => "Some(" ++ Text.quoted hiddenKey ++ ")"
    | none => "None"
  "ModelBackendConfig \x7b name: " ++ Text.quoted b.name ++ ", provider: " ++
    Text.quoted b.provider ++ ", base_url: " ++ Text.quoted b.baseUrl ++ ", api_key: " ++ key ++
    ", max_tokens: " ++ toString b.maxTokens ++ ", temperature: " ++ b.temperature.logText ++
    ", timeout_seconds: " ++ toString b.timeoutSeconds ++ ", max_retries: " ++
    toString b.maxRetries ++ ", extra: \x7b" ++ ", ".intercalate (Json.fieldsLog b.extra) ++
    "\x7d \x7d"

end Docsmith
