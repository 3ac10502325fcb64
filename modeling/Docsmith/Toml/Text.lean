import Docsmith.Text.Basic
/-!
# TOML — strings

A string stands between one or three quotes. Between `"` a backslash
escapes; between `'` everything stands for itself. Strings between three
quotes may hold line breaks, of which one right after the opening is
dropped, and up to two quotes next to each other, also at their end. All
readers start after the opening and return what follows the closing.
-/

namespace Docsmith.Toml

/-- White space within a line. -/
def isSpace (c : Char) : Bool :=
  c == ' ' || c == '\t'

/-- No control character, or a tab. -/
def isTextChar (c : Char) : Bool :=
  c == '\t' || (0x20 ≤ c.toNat && c.toNat ≠ 0x7f)

/-- The character a letter stands for after a backslash. -/
def shortEscape? : Char → Option Char
  | 'b' => some '\x08'
  | 't' => some '\t'
  | 'n' => some '\n'
  | 'f' => some '\x0c'
  | 'r' => some '\r'
  | '"' => some '"'
  | '\\' => some '\\'
  | _ => none

/-- The character with a number in hexadecimal digits. -/
def charOfHex? (digits : List Char) : Option Char :=
  (Text.numeral? 16 digits).bind fun n => if n.isValidChar then some (Char.ofNat n) else none

/-- The character written after a backslash, and how many characters
write it. -/
def escaped? : List Char → Option (Char × Nat)
  | 'u' :: rest => if rest.length < 4 then none else (charOfHex? (rest.take 4)).map (·, 5)
  | 'U' :: rest => if rest.length < 8 then none else (charOfHex? (rest.take 8)).map (·, 9)
  | c :: _ => (shortEscape? c).map (·, 1)
  | [] => none

/-- A string between `"` on one line. -/
def basic? (text : List Char) : Option (List Char × List Char) :=
  match text with
  | [] => none
  | '"' :: rest => some ([], rest)
  | '\\' :: rest => do
    let (c, count) ← escaped? rest
    let (s, rest) ← basic? (rest.drop count)
    return (c :: s, rest)
  | c :: rest =>
    if isTextChar c then (basic? rest).map fun (s, rest) => (c :: s, rest) else none
termination_by text.length
decreasing_by
  · simp only [List.length_cons, List.length_drop]; omega
  · simp

/-- A string between `'` on one line. -/
def literal? : List Char → Option (List Char × List Char)
  | [] => none
  | '\'' :: rest => some ([], rest)
  | c :: rest =>
    if isTextChar c then (literal? rest).map fun (s, rest) => (c :: s, rest) else none

/-- What a run of quotes means inside a string between three: quotes of
its text, or those of its text before the closing three. -/
inductive Quotes where
  | inside
  | closing (count : Nat)

/-- The meaning of a run of some length, if it has one. -/
def Quotes.ofRun? (length : Nat) : Option Quotes :=
  if length < 3 then some .inside
  else if length ≤ 5 then some (.closing (length - 3))
  else none

/-- Drops the white space and the line breaks after a backslash, where at
least one line break follows it. -/
def lineJoin? (rest : List Char) : Option (List Char) :=
  match rest.dropWhile isSpace with
  | '\n' :: more => some (more.dropWhile fun c => isSpace c || c == '\n')
  | _ => none

theorem length_lt_of_lineJoin? {rest more : List Char} (h : lineJoin? rest = some more) :
    more.length < rest.length + 1 := by
  unfold lineJoin? at h
  split at h
  · rename_i tail heq
    cases h
    have hspace : (rest.dropWhile isSpace).length ≤ rest.length :=
      (List.dropWhile_sublist _).length_le
    have htail : (tail.dropWhile fun c => isSpace c || c == '\n').length ≤ tail.length :=
      (List.dropWhile_sublist _).length_le
    rw [heq, List.length_cons] at hspace
    omega
  · cases h

/-- The body of a string between three `"`. -/
def basicLines? (text : List Char) : Option (List Char × List Char) :=
  match text with
  | [] => none
  | '"' :: rest =>
    let more := rest.dropWhile (· == '"')
    match Quotes.ofRun? (rest.length - more.length + 1) with
    | none => none
    | some (.closing count) => some (List.replicate count '"', more)
    | some .inside => (basicLines? more).map fun (s, after) =>
        (List.replicate (rest.length - more.length + 1) '"' ++ s, after)
  | '\\' :: rest =>
    match _joined : lineJoin? rest with
    | some more => basicLines? more
    | none => do
      let (c, count) ← escaped? rest
      let (s, rest) ← basicLines? (rest.drop count)
      return (c :: s, rest)
  | c :: rest =>
    if isTextChar c || c == '\n' then (basicLines? rest).map fun (s, rest) => (c :: s, rest)
    else none
termination_by text.length
decreasing_by
  · have hmore : (rest.dropWhile (· == '"')).length ≤ rest.length :=
      (List.dropWhile_sublist _).length_le
    simp only [List.length_cons]; omega
  · have := length_lt_of_lineJoin? _joined
    simpa using this
  · simp only [List.length_cons, List.length_drop]; omega
  · simp

/-- The body of a string between three `'`. -/
def literalLines? (text : List Char) : Option (List Char × List Char) :=
  match text with
  | [] => none
  | '\'' :: rest =>
    let more := rest.dropWhile (· == '\'')
    match Quotes.ofRun? (rest.length - more.length + 1) with
    | none => none
    | some (.closing count) => some (List.replicate count '\'', more)
    | some .inside => (literalLines? more).map fun (s, after) =>
        (List.replicate (rest.length - more.length + 1) '\'' ++ s, after)
  | c :: rest =>
    if isTextChar c || c == '\n' then (literalLines? rest).map fun (s, rest) => (c :: s, rest)
    else none
termination_by text.length
decreasing_by
  · have hmore : (rest.dropWhile (· == '\'')).length ≤ rest.length :=
      (List.dropWhile_sublist _).length_le
    simp only [List.length_cons]; omega
  · simp

/-- Drops a line break right after the opening. -/
def dropFirstBreak : List Char → List Char
  | '\n' :: rest => rest
  | text => text

/-- A string with its opening. -/
def string? : List Char → Option (List Char × List Char)
  | '"' :: '"' :: '"' :: rest => basicLines? (dropFirstBreak rest)
  | '\'' :: '\'' :: '\'' :: rest => literalLines? (dropFirstBreak rest)
  | '"' :: rest => basic? rest
  | '\'' :: rest => literal? rest
  | _ => none

end Docsmith.Toml
