import Docsmith.Failure
import Docsmith.Model.Protocol
import Docsmith.Url.Reader
/-!
# Models — posts and replies

A call becomes one post or several that are all alike: while a post fails
in a way that may pass, it is repeated, as often as the backend's settings
allow. Nothing is posted to an address that is none or not on the web. A
key is sent along unless the protocol has no use for it or the key is
blank.
-/

/-! ## Status codes

The status of a reply, with its usual phrase.
-/

namespace Docsmith.Model.Status

/-- The phrases of the known codes. -/
def phrases : List (Nat × String) :=
  [ (100, "Continue"), (101, "Switching Protocols"), (102, "Processing"),
    (103, "Early Hints"), (200, "OK"), (201, "Created"), (202, "Accepted"),
    (203, "Non Authoritative Information"), (204, "No Content"), (205, "Reset Content"),
    (206, "Partial Content"), (207, "Multi-Status"), (208, "Already Reported"),
    (226, "IM Used"), (300, "Multiple Choices"), (301, "Moved Permanently"), (302, "Found"),
    (303, "See Other"), (304, "Not Modified"), (305, "Use Proxy"),
    (307, "Temporary Redirect"), (308, "Permanent Redirect"), (400, "Bad Request"),
    (401, "Unauthorized"), (402, "Payment Required"), (403, "Forbidden"), (404, "Not Found"),
    (405, "Method Not Allowed"), (406, "Not Acceptable"),
    (407, "Proxy Authentication Required"), (408, "Request Timeout"), (409, "Conflict"),
    (410, "Gone"), (411, "Length Required"), (412, "Precondition Failed"),
    (413, "Payload Too Large"), (414, "URI Too Long"), (415, "Unsupported Media Type"),
    (416, "Range Not Satisfiable"), (417, "Expectation Failed"), (418, "I'm a teapot"),
    (421, "Misdirected Request"), (422, "Unprocessable Entity"), (423, "Locked"),
    (424, "Failed Dependency"), (425, "Too Early"), (426, "Upgrade Required"),
    (428, "Precondition Required"), (429, "Too Many Requests"),
    (431, "Request Header Fields Too Large"), (451, "Unavailable For Legal Reasons"),
    (500, "Internal Server Error"), (501, "Not Implemented"), (502, "Bad Gateway"),
    (503, "Service Unavailable"), (504, "Gateway Timeout"),
    (505, "HTTP Version Not Supported"), (506, "Variant Also Negotiates"),
    (507, "Insufficient Storage"), (508, "Loop Detected"), (510, "Not Extended"),
    (511, "Network Authentication Required") ]

/-- A code and its phrase. -/
def text (code : Nat) : String :=
  toString code ++ " " ++ ((phrases.find? (·.1 == code)).map (·.2)).getD "<unknown status code>"

/-- Tells of success. -/
def isSuccess (code : Nat) : Bool :=
  200 ≤ code && code < 300

end Docsmith.Model.Status

/-! ## Posts -/

namespace Docsmith.Model

/-- What is sent to a backend, and how many seconds it may take. -/
structure Post where
  address : Url
  bearer : Option String
  body : Json
  timeoutSeconds : Nat

/-- What a transport tells of a post without a reply. -/
structure Fault where
  timedOut : Bool := false
  unconnected : Bool := false
  unbuilt : Bool := false
  text : String
  deriving DecidableEq, Repr

/-- The category of a post without a reply. -/
def Fault.category (f : Fault) : Failure.Category :=
  if f.timedOut || f.unconnected then .network
  else if f.unbuilt then .badRequest
  else .unknown

/-- What comes back: a reply, or that no connection was made, or that it
was lost, or another fault. -/
inductive Response where
  | reply (status : Nat) (body : String)
  | unreachable
  | lost
  | broken (fault : Fault)
  deriving DecidableEq, Repr

/-- The schemes of addresses that are posted to. -/
def webSchemes : List String :=
  ["http", "https"]

/-- The address that an endpoint is, if it is one on the web. -/
def addressOf (endpoint : String) : Except Failure Url :=
  match Url.parse endpoint with
  | .error e =>
    .error (.config ("Invalid model endpoint URL '" ++ endpoint ++ "': " ++ e.message))
  | .ok address =>
    if webSchemes.contains address.scheme then .ok address
    else
      .error (.config
        ("Model endpoint must use http or https scheme, got: " ++ address.scheme))

/-- The key that a backend's posts carry. -/
def bearerOf (b : Config.Backend) : Option String :=
  if Protocol.ofBackend b = .ollama then none
  else b.apiKey.filter fun key => !Text.isBlankText key.toList

/-- The post of a backend's call. -/
def Post.ofCall (b : Config.Backend) (address : Url) (payload : Json) : Post :=
  ⟨address, bearerOf b, payload, b.timeoutSeconds⟩

@[simp] theorem Post.bearer_ofCall (b : Config.Backend) (address : Url) (payload : Json) :
    (Post.ofCall b address payload).bearer = bearerOf b := by
  rw [Post.ofCall]

/-- What is said of a reply that tells of no success. -/
def refusal (status : Nat) (body : String) : String :=
  let reason := Text.trim body.toList
  "HTTP " ++ Status.text status ++ (if reason.isEmpty then "" else ": " ++ String.ofList reason)

/-- What is said of a post that gets no reply. -/
def Post.trouble (p : Post) : String :=
  "error sending request for url (" ++ p.address.anonymous.text ++ ")"

/-- The outcome of a post. -/
def Post.outcome (p : Post) (backend : String) (response : Response) : Except Failure String :=
  let failed (f : Fault) : Except Failure String :=
    .error (.backend ⟨f.category, f.text, some backend⟩)
  match response with
  | .reply status body =>
    if Status.isSuccess status then .ok body
    else .error (.backend ⟨.ofStatus status, refusal status body, some backend⟩)
  | .unreachable => failed { unconnected := true, text := p.trouble }
  | .lost => failed { text := p.trouble }
  | .broken f => failed f

/-- A failure that may pass. -/
def mayPass : Except Failure String → Bool
  | .ok _ => false
  | .error f => f.isRecoverable

/-- Makes a post, and again after an outcome that may pass while repetitions
are left: what the last post comes to, and the posts that were made. The first
of them has the number `n`; `outcome` tells what each comes to. -/
def Post.repeated (p : Post) (outcome : Nat → Except Failure String) :
    (repetitions n : Nat) → Except Failure String × List Post
  | 0, n => (outcome n, [p])
  | repetitions + 1, n =>
    if mayPass (outcome n) then
      let (result, posts) := p.repeated outcome repetitions (n + 1)
      (result, p :: posts)
    else (outcome n, [p])

/-- What a call comes to, and the posts that were made; `respond` tells
what each of them gets. -/
def invoke (b : Config.Backend) (endpoint : String) (payload : Json) (respond : Nat → Response) :
    Except Failure String × List Post :=
  match addressOf endpoint with
  | .error f => (.error f, [])
  | .ok address =>
    let post := Post.ofCall b address payload
    post.repeated (fun n => post.outcome b.name (respond n)) b.maxRetries 0

end Docsmith.Model
