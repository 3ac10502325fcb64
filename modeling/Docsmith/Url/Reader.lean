import Docsmith.Url.Host
/-!
# Addresses

An address has a scheme, and most have a host. Some schemes are common:
they need a host, have a usual port, and take a backslash for a slash.
Reading an address cleans it: blanks around it and line breaks in it are
dropped, the path loses its `.` and `..` components, and the usual port is
not kept.
-/

namespace Docsmith

/-- An address. -/
structure Url where
  scheme : String
  user : String := ""
  password : String := ""
  host : Option Url.Host := none
  port : Option Nat := none
  path : String := ""
  query : Option String := none
  fragment : Option String := none
  deriving DecidableEq, Repr

namespace Url

/-- The common schemes and their usual ports. -/
def usualPorts : List (String × Nat) :=
  [("http", 80), ("https", 443), ("ws", 80), ("wss", 443), ("ftp", 21)]

/-- What reads an address of a scheme. -/
inductive Manner where
  | common
  | file
  | other
  deriving DecidableEq, Repr

/-- How addresses of a scheme are read. -/
def mannerOf (scheme : String) : Manner :=
  if usualPorts.any (·.1 == scheme) then .common
  else if scheme = "file" then .file
  else .other

/-- A slash, or what counts as one. -/
def Manner.isSlash (m : Manner) (c : Char) : Bool :=
  c == '/' || (c == '\\' && m != .other)

/-- Ends the part of an address that names its host. -/
def Manner.endsHost (m : Manner) (c : Char) : Bool :=
  m.isSlash c || c == '?' || c == '#'

/-- The text without controls and spaces around it and without tabs and
line breaks. -/
def cleaned (text : List Char) : List Char :=
  let trimmed := Text.dropEndWhile (· ≤ ' ') (text.dropWhile (· ≤ ' '))
  trimmed.filter fun c => c != '\t' && c != '\n' && c != '\r'

/-- The scheme in lower case and what follows its colon. -/
def splitScheme? (text : List Char) : Option (String × List Char) :=
  let isSchemeChar (c : Char) : Bool := c.isAlphanum || c == '+' || c == '-' || c == '.'
  let scheme := text.takeWhile isSchemeChar
  match text.dropWhile isSchemeChar with
  | ':' :: rest =>
    if (scheme.head?.map Char.isAlpha).getD false then
      some (String.ofList (scheme.map Char.toLower), rest)
    else none
  | _ => none

/-- The user's name and password before the last `@`, and what follows. -/
def splitUser (authority : List Char) : List Char × List Char × List Char :=
  match Text.splitLast? ['@'] authority with
  | none => ([], [], authority)
  | some (user, rest) =>
    match Text.splitOnce? [':'] user with
    | none => (user, [], rest)
    | some (name, password) => (name, password, rest)

/-- The host and what follows it: a colon inside brackets does not end it. -/
def splitHost : (isInside : Bool) → List Char → List Char × List Char
  | _, [] => ([], [])
  | isInside, c :: text =>
    if c == ':' && !isInside then ([], c :: text)
    else
      let (host, rest) := splitHost (if c == '[' then true else c != ']' && isInside) text
      (c :: host, rest)

/-- The port after a host, if one is told. -/
def readPort : List Char → Except Error (Option Nat)
  | ':' :: text =>
    let digits := text.takeWhile Char.isDigit
    match text.dropWhile Char.isDigit, Text.numeral? 10 digits with
    | c :: _, _ => if c == '\\' then .ok (Text.numeral? 10 digits) else .error .port
    | [], none => .ok none
    | [], some port => if 65535 < port then .error .port else .ok (some port)
  | _ => .ok none

/-- A component that stands for the one it is in. -/
def isCurrent (segment : List Char) : Bool :=
  segment.map Char.toLower ∈ [['.'], "%2e".toList]

/-- A component that stands for the one above. -/
def isParent (segment : List Char) : Bool :=
  segment.map Char.toLower ∈ ["..".toList, ".%2e".toList, "%2e.".toList, "%2e%2e".toList]

/-- The components of a path; `found` are those before, the last one
first. -/
def segments (found : List (List Char)) : List (List Char) → List (List Char)
  | [] => found.reverse
  | segment :: rest =>
    let kept (found : List (List Char)) : List (List Char) :=
      if rest.isEmpty then [] :: found else found
    if isParent segment then segments (kept (found.drop 1)) rest
    else if isCurrent segment then segments (kept found) rest
    else segments (encode isPlainInPath segment :: found) rest

/-- A path with a slash at its start and without `.` and `..`. -/
def pathText (m : Manner) (path : List Char) : String :=
  let bare := if (path.head?.map m.isSlash).getD false then path.drop 1 else path
  String.ofList ('/' :: Text.join ['/'] (segments [] (Text.splitBy m.isSlash bare)))

/-- An address with the path, query and fragment that follow its host. -/
def withRest (u : Url) (m : Manner) (isRooted : Bool) (rest : List Char) : Url :=
  let path := rest.takeWhile fun c => c != '?' && c != '#'
  let rest := rest.drop path.length
  let query := rest.takeWhile (· != '#')
  let fragment := rest.drop query.length
  { u with
    path :=
      if isRooted then pathText m path else String.ofList (encode isPlainOpaque path)
    query := query.head?.map fun _ => String.ofList (encode isPlainInQuery (query.drop 1))
    fragment := fragment.head?.map fun _ =>
      String.ofList (encode isPlainInFragment (fragment.drop 1)) }

/-- Reads an address from the name of its host on. -/
def readHost (scheme : String) (m : Manner) (text : List Char) : Except Error Url := do
  let authority := text.takeWhile (!m.endsHost ·)
  let rest := text.drop authority.length
  let (user, password, place) := splitUser authority
  let (hostText, afterHost) := splitHost false place
  let isBare := user.isEmpty && password.isEmpty && !(authority == ['@'] && !rest.isEmpty)
  if hostText.isEmpty && (m == .common || !afterHost.isEmpty || !isBare) then
    .error .emptyHost
  else
    let host ← if m == .common then Host.parse hostText else Host.parseOpaque hostText
    let port ← readPort afterHost
    let own : Url :=
      { scheme
        user := String.ofList (encode isPlainInUser user)
        password := String.ofList (encode isPlainInUser password)
        host := some host
        port := port.filter fun p => !usualPorts.contains (scheme, p) }
    return own.withRest m (m == .common || (rest.head?.map m.isSlash).getD false) rest

/-- A letter and a colon or bar. -/
def isDrive (text : List Char) : Bool :=
  match text with
  | [letter, mark] => letter.isAlpha && (mark == ':' || mark == '|')
  | _ => false

/-- Reads an address of a file. -/
def readFile (m : Manner) (text : List Char) : Except Error Url :=
  match text with
  | a :: b :: rest =>
    if m.isSlash a && m.isSlash b then
      let hostText := rest.takeWhile (!m.endsHost ·)
      if hostText.isEmpty || isDrive hostText then
        .ok (withRest { scheme := "file", host := some (.name "") } m true rest)
      else do
        let host ← Host.parse hostText
        let host := if host = .name "localhost" then .name "" else host
        return withRest { scheme := "file", host := some host } m true (rest.drop hostText.length)
    else .ok (withRest { scheme := "file", host := some (.name "") } m true text)
  | _ => .ok (withRest { scheme := "file", host := some (.name "") } m true text)

/-- Reads an address. -/
def parse (text : String) : Except Error Url :=
  match splitScheme? (cleaned text.toList) with
  | none => .error .noBase
  | some (scheme, rest) =>
    let m := mannerOf scheme
    match m, rest with
    | .common, _ => readHost scheme m (rest.dropWhile m.isSlash)
    | .file, _ => readFile m rest
    | .other, '/' :: '/' :: rest => readHost scheme m rest
    | .other, _ =>
      .ok (withRest { scheme } m (rest.head? == some '/') rest)

/-- The address without user and password. -/
def anonymous (u : Url) : Url :=
  { u with user := "", password := "" }

/-- The address as a text. -/
def text (u : Url) : String :=
  let user :=
    if u.user.isEmpty && u.password.isEmpty then ""
    else u.user ++ (if u.password.isEmpty then "" else ":" ++ u.password) ++ "@"
  let host := match u.host with
    | some h => "//" ++ user ++ h.text ++ (u.port.map fun p => ":" ++ toString p).getD ""
    | none => ""
  u.scheme ++ ":" ++ host ++ u.path ++ (u.query.map ("?" ++ ·)).getD "" ++
    (u.fragment.map ("#" ++ ·)).getD ""

end Url

end Docsmith
