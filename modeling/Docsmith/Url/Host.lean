import Docsmith.Text.Basic
import Docsmith.Unicode.Lowercase
/-!
# Addresses — hosts

A host is a name, or the number of a machine in one of two forms. Names are
brought to lower case, and their labels to ASCII. A name whose last label
is a number is the shorter form of machine number: up to four numbers in
base ten, eight or sixteen, of which the last fills what is left. The
longer form stands in brackets: eight groups, of which a run of zeros may
be left out once.
-/

/-! ## Letters beyond ASCII

A label with letters beyond ASCII is written in ASCII: first its ASCII
letters, then for every other letter, in ascending order, how far the
decoder has to count to reach it. A count is written in base thirty-six
with the lowest digit first, and the digit that ends it is told by a
threshold that follows the size of the counts before.
-/

namespace Docsmith.Url.Punycode

/-- The digit of a value below thirty-six: letters come first. -/
def digit (value : Nat) : Char :=
  if value < 26 then Char.ofNat ('a'.toNat + value) else Char.ofNat ('0'.toNat + value - 26)

/-- The value of a digit in either case. -/
def value? (c : Char) : Option Nat :=
  (Text.digitValue? 36 c).map fun v => if v < 10 then v + 26 else v - 10

/-- The threshold of the digit at a position counted in steps of
thirty-six. -/
def threshold (bias position : Nat) : Nat :=
  min 26 (max 1 (position - bias))

/-- How often a count is divided until it is small, and what is left. -/
def shrink : (fuel : Nat) → Nat → Nat × Nat
  | 0, count => (0, count)
  | fuel + 1, count =>
    if count ≤ 455 then (0, count)
    else
      let (steps, rest) := shrink fuel (count / 35)
      (steps + 1, rest)

/-- The bias after a count, when `total` letters are there. -/
def adapt (count total : Nat) (isFirst : Bool) : Nat :=
  let halved := if isFirst then count / 700 else count / 2
  let scaled := halved + halved / total
  let (steps, rest) := shrink scaled scaled
  36 * steps + 36 * rest / (rest + 38)

/-- The digits of a count, from a position on. -/
def countDigits (bias : Nat) : (fuel position count : Nat) → List Char
  | 0, _, _ => []
  | fuel + 1, position, count =>
    let t := threshold bias position
    if count < t then [digit count]
    else
      digit (t + (count - t) % (36 - t)) ::
        countDigits bias fuel (position + 36) ((count - t) / (36 - t))

/-- Where an encoder stands: what it wrote, the count so far, the bias and
how many letters are done. -/
structure Encoder where
  written : List Char
  count : Nat
  bias : Nat
  done : Nat

/-- Passes a letter while those with the number `code` are due. -/
def Encoder.pass (basic code : Nat) (e : Encoder) (c : Char) : Encoder :=
  if c.toNat < code then { e with count := e.count + 1 }
  else if c.toNat = code then
    { written := e.written ++ countDigits e.bias (e.count + 1) 36 e.count
      count := 0
      bias := adapt e.count (e.done + 1) (e.done == basic)
      done := e.done + 1 }
  else e

/-- Writes the letters with the given numbers, which ascend; `next` is the
least number that is not done. -/
def Encoder.writeAll (label : List Char) (basic : Nat) : (next : Nat) → List Nat → Encoder →
    List Char
  | _, [], e => e.written
  | next, code :: codes, e =>
    let e := label.foldl (Encoder.pass basic code)
      { e with count := e.count + (code - next) * (e.done + 1) }
    writeAll label basic (code + 1) codes { e with count := e.count + 1 }

/-- The numbers of the letters beyond ASCII, ascending and each once. -/
def codes (label : List Char) : List Nat :=
  (((label.filter fun c => 128 ≤ c.toNat).map Char.toNat).mergeSort (· ≤ ·)).eraseReps

/-- A label in ASCII, without the mark that tells it is encoded. -/
def encode (label : List Char) : List Char :=
  let basic := label.filter (·.toNat < 128)
  let start := if basic.isEmpty then [] else basic ++ ['-']
  Encoder.writeAll label basic.length 128 (codes label) ⟨start, 0, 72, basic.length⟩

/-- Reads a count: its value and the rest. -/
def readCount (bias : Nat) : (position weight : Nat) → List Char → Option (Nat × List Char)
  | _, _, [] => none
  | position, weight, c :: rest =>
    match value? c with
    | none => none
    | some v =>
      let t := threshold bias position
      if v < t then some (v * weight, rest)
      else
        (readCount bias (position + 36) (weight * (36 - t)) rest).map fun (count, rest) =>
          (v * weight + count, rest)

/-- Puts the letters that counts stand for among those read so far. -/
def readAll : (fuel code place bias : Nat) → (isFirst : Bool) → List Char → List Char →
    Option (List Char)
  | _, _, _, _, _, label, [] => some label
  | 0, _, _, _, _, _, _ => none
  | fuel + 1, code, place, bias, isFirst, label, text =>
    match readCount bias 36 1 text with
    | none => none
    | some (count, rest) =>
      let total := label.length + 1
      let code := code + (place + count) / total
      let place := (place + count) % total
      if h : code.isValidChar then
        readAll fuel code (place + 1) (adapt count total isFirst) false
          (label.take place ++ Char.ofNatAux code h :: label.drop place) rest
      else none

/-- The label that some text in ASCII stands for. -/
def decode? (text : List Char) : Option (List Char) :=
  let reversed := text.reverse
  let (basic, counts) : List Char × List Char :=
    if text.contains '-' then
      (((reversed.dropWhile (· != '-')).drop 1).reverse, (reversed.takeWhile (· != '-')).reverse)
    else ([], text)
  readAll (text.length + 1) 128 0 72 true basic counts

end Docsmith.Url.Punycode

namespace Docsmith.Url

/-! ## Percent signs

In an address an octet may be written as a percent sign and two digits.
Which characters have to be written so depends on the part of the address;
those beyond ASCII always are. A percent sign itself stays as it is.
-/

/-- The octets of a text. -/
def octets (text : List Char) : List UInt8 :=
  (String.ofList text).toUTF8.data.toList

/-- An octet as a percent sign and two digits. -/
def percent (octet : UInt8) : List Char :=
  let digit (n : Nat) : Char := (Nat.digitChar n).toUpper
  ['%', digit (octet.toNat / 16), digit (octet.toNat % 16)]

/-- Writes all characters of a text by their octets but for plain ones. -/
def encode (isPlain : Char → Bool) (text : List Char) : List Char :=
  text.flatMap fun c => if isPlain c then [c] else (octets [c]).flatMap percent

/-- The octets of a text with percent signs. -/
def decode : List Char → List UInt8
  | [] => []
  | '%' :: a :: b :: text =>
    match Text.digitValue? 16 a, Text.digitValue? 16 b with
    | some high, some low => (high * 16 + low).toUInt8 :: decode text
    | _, _ => '%'.toNat.toUInt8 :: decode (a :: b :: text)
  | c :: text => octets [c] ++ decode text

/-- A visible character of ASCII or a space. -/
def isPrintable (c : Char) : Bool :=
  ' ' ≤ c && c ≤ '~'

/-- Stays as it is in what has no structure. -/
def isPlainOpaque (c : Char) : Bool :=
  isPrintable c

/-- Stays as it is in a fragment. -/
def isPlainInFragment (c : Char) : Bool :=
  isPrintable c && !" \"<>\x60".toList.contains c

/-- Stays as it is in a path. -/
def isPlainInPath (c : Char) : Bool :=
  isPlainInFragment c && !"#?\x7b\x7d".toList.contains c

/-- Stays as it is in a user's name or password. -/
def isPlainInUser (c : Char) : Bool :=
  isPlainInPath c && !"/:;=@[\\]^|".toList.contains c

/-- Stays as it is in a query. -/
def isPlainInQuery (c : Char) : Bool :=
  isPrintable c && !" \"#<>\x27".toList.contains c

/-! ## Hosts -/

/-- Why a text is no address. -/
inductive Error where
  | emptyHost
  | internationalName
  | port
  | shortNumber
  | longNumber
  | nameCharacter
  | noBase
  deriving DecidableEq, Repr

/-- The error in words. -/
def Error.message : Error → String
  | .emptyHost => "empty host"
  | .internationalName => "invalid international domain name"
  | .port => "invalid port number"
  | .shortNumber => "invalid IPv4 address"
  | .longNumber => "invalid IPv6 address"
  | .nameCharacter => "invalid domain character"
  | .noBase => "relative URL without a base"

/-- A host. -/
inductive Host where
  | name (text : String)
  | short (number : Nat)
  | long (groups : List Nat)
  deriving DecidableEq, Repr

namespace Host

/-! ## Machine numbers -/

/-- A part of a short number: base sixteen after `0x`, base eight after a
leading zero. -/
def part? (text : List Char) : Option Nat :=
  let read (base : Nat) (digits : List Char) : Option Nat :=
    if digits.isEmpty then some 0 else Text.numeral? base digits
  match text with
  | [] => none
  | '0' :: 'x' :: digits | '0' :: 'X' :: digits => read 16 digits
  | '0' :: c :: digits => read 8 (c :: digits)
  | digits => read 10 digits

/-- The parts of a name, without an empty one at its end. -/
def parts (name : List Char) : List (List Char) :=
  let all := Text.splitChar '.' name
  if 1 < all.length && all.getLast? == some [] then all.dropLast else all

/-- The last part of the name is a number. -/
def endsInNumber (name : List Char) : Bool :=
  match (parts name).getLast? with
  | some last => (!last.isEmpty && last.all Char.isDigit) || (part? last).isSome
  | none => false

/-- The short number that a name is. -/
def short? (name : List Char) : Option Nat :=
  match (parts name).mapM part? with
  | none => none
  | some numbers =>
    match numbers.reverse with
    | [] => none
    | last :: before =>
      let size := Nat.pow 256 (4 - before.length)
      if 4 < numbers.length || size ≤ last || before.any (255 < ·) then none
      else some (before.reverse.foldl (fun n part => n * 256 + part) 0 * size + last)

/-- A short number in its usual form: four numbers up to 255 without
leading zeros, as two groups. -/
def dotted? (text : List Char) : Option (List Nat) :=
  let number? (digits : List Char) : Option Nat :=
    if digits.head? == some '0' && 1 < digits.length then none
    else (Text.numeral? 10 digits).filter (· ≤ 255)
  match (Text.splitChar '.' text).mapM number? with
  | some [a, b, c, d] => some [a * 256 + b, c * 256 + d]
  | _ => none

/-- Groups between colons. The last one may be a short number where
`isEnd` says that nothing follows. -/
def groups? (isEnd : Bool) (text : List Char) : Option (List Nat) :=
  let group? (digits : List Char) : Option Nat :=
    if 4 < digits.length then none else Text.numeral? 16 digits
  if text.isEmpty then some []
  else
    match (Text.splitChar ':' text).reverse with
    | [] => none
    | last :: before => do
      let groups ← before.reverse.mapM group?
      if isEnd && last.contains '.' then return groups ++ (← dotted? last)
      return groups ++ [← group? last]

/-- The long number in a text. -/
def long? (text : List Char) : Option (List Nat) :=
  match Text.splitOnce? [':', ':'] text with
  | none => (groups? true text).filter (·.length == 8)
  | some (left, right) => do
    let left ← groups? false left
    let right ← groups? true right
    if 8 ≤ left.length + right.length then none
    else some (left ++ List.replicate (8 - left.length - right.length) 0 ++ right)

/-- The length of the run of zeros at the start. -/
def zeros (groups : List Nat) : Nat :=
  (groups.takeWhile (· == 0)).length

/-- Where the first of the longest runs of zeros stands, if it has two
members or more, and its length. -/
def longestRun (groups : List Nat) : Option (Nat × Nat) :=
  let runs := (List.range groups.length).map fun i => (i, zeros (groups.drop i))
  let longest := runs.foldl (fun best run => if best.2 < run.2 then run else best) (0, 0)
  if longest.2 < 2 then none else some longest

/-- Groups with colons between them. -/
def groupsText (groups : List Nat) : String :=
  ":".intercalate (groups.map fun g => String.ofList (Nat.toDigits 16 g))

/-- The host in an address. -/
def text : Host → String
  | .name text => text
  | .short n =>
    ".".intercalate ((List.range 4).map fun i => toString (n / Nat.pow 256 (3 - i) % 256))
  | .long groups =>
    let inner := match longestRun groups with
      | some (start, length) =>
        groupsText (groups.take start) ++ "::" ++ groupsText (groups.drop (start + length))
      | none => groupsText groups
    "[" ++ inner ++ "]"

/-! ## Names -/

/-- Is dropped from names. -/
def isSilent (c : Char) : Bool :=
  c == '\u00ad' || c == '\u200b' || c == '\u2060' || c == '\ufeff'

/-- Counts as a dot. -/
def isDot (c : Char) : Bool :=
  c == '\u3002' || c == '\uff0e' || c == '\uff61'

/-- What a character of a name is brought to. -/
def folded (c : Char) : List Char :=
  if isSilent c then []
  else if isDot c then ['.']
  else if '\uff01' ≤ c && c ≤ '\uff5e' then
    Unicode.lowerChar (Char.ofNat (c.toNat - 0xff01 + '!'.toNat))
  else Unicode.lowerChar c

/-- Is not allowed in a name. -/
def isForbidden (c : Char) : Bool :=
  c ≤ ' ' || ('\x7f' ≤ c && c ≤ '\u009f') || "%#/:<>?@[\\]^|".toList.contains c

/-- A label in ASCII. One that is marked as encoded has to be what encoding
gives. -/
def label? (label : List Char) : Option (List Char) :=
  let mark := "xn--".toList
  if !label.all (·.toNat < 128) then some (mark ++ Punycode.encode label)
  else
    match Text.dropStart? mark label with
    | none => some label
    | some encoded =>
      (Punycode.decode? encoded).bind fun decoded =>
        let isFolded := decoded.all fun c => folded c == [c] && !isForbidden c
        if isFolded && decoded.any (128 ≤ ·.toNat) && Punycode.encode decoded == encoded then
          some label
        else none

/-- A name in ASCII. -/
def ascii? (name : List Char) : Option (List Char) :=
  let name := name.flatMap folded
  if name.any isForbidden then none
  else ((Text.splitChar '.' name).mapM label?).map (Text.join ['.'])

/-- The machine number in brackets. -/
def bracketed (text : List Char) : Except Error Host :=
  if text.getLast? != some ']' then .error .longNumber
  else
    match long? (text.drop 1).dropLast with
    | some groups => .ok (.long groups)
    | none => .error .longNumber

/-- Reads the host of a scheme that names machines. -/
def parse (text : List Char) : Except Error Host :=
  if text.head? == some '[' then bracketed text
  else
    match String.fromUTF8? ⟨(decode text).toArray⟩ with
    | none => .error .internationalName
    | some decoded =>
      match ascii? decoded.toList with
      | none => .error .internationalName
      | some [] => .error .emptyHost
      | some ascii =>
        if endsInNumber ascii then
          match short? ascii with
          | some number => .ok (.short number)
          | none => .error .shortNumber
        else .ok (.name (String.ofList ascii))

/-- Reads the host of any other scheme. -/
def parseOpaque (text : List Char) : Except Error Host :=
  if text.head? == some '[' then bracketed text
  else if text.any fun c => "\x00\t\n\r #/:<>?@[\\]^|".toList.contains c then
    .error .nameCharacter
  else .ok (.name (String.ofList (encode isPlainOpaque text)))

end Host

end Docsmith.Url
