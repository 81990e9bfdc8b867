import CallSampler.Json.Number

/-!
# Writing JSON documents

The compact form has no blanks at all. The pretty form indents by two spaces, puts one blank after
a colon, writes an empty array or object as its two brackets, and ends without a line break.
-/

namespace CallSampler.Json

/-- A hexadecimal digit in lower case. -/
def hexDigit (n : Nat) : Char := Nat.digitChar n

/-- A character inside a string: quotes, backslashes and control characters are escaped, all else
stands for itself. -/
def escape (c : Char) : List Char :=
  if c = '"' then ['\\', '"']
  else if c = '\\' then ['\\', '\\']
  else if c = '\n' then ['\\', 'n']
  else if c = '\r' then ['\\', 'r']
  else if c = '\t' then ['\\', 't']
  else if c = '\x08' then ['\\', 'b']
  else if c = '\x0c' then ['\\', 'f']
  else if c.toNat < 0x20 then
    ['\\', 'u', '0', '0', hexDigit (c.toNat / 16), hexDigit (c.toNat % 16)]
  else [c]

def quoted (s : String) : List Char := '"' :: s.toList.flatMap escape ++ ['"']

mutual

def compactChars : Json → List Char
  | .null => ['n', 'u', 'l', 'l']
  | .bool true => ['t', 'r', 'u', 'e']
  | .bool false => ['f', 'a', 'l', 's', 'e']
  | .number n => n.text
  | .string s => quoted s
  | .array items => '[' :: compactItems true items
  | .object entries => '{' :: compactEntries true entries

/-- The items of an array up to its end. -/
def compactItems (first : Bool) : List Json → List Char
  | [] => [']']
  | item :: rest =>
    (if first then [] else [',']) ++ compactChars item ++ compactItems false rest

/-- The entries of an object up to its end. -/
def compactEntries (first : Bool) : List (String × Json) → List Char
  | [] => ['}']
  | (key, value) :: rest =>
    (if first then [] else [',']) ++ quoted key ++ ':' :: compactChars value ++
      compactEntries false rest

end

/-- A line break and the indentation of a level. -/
def newline (level : Nat) : List Char := '\n' :: List.replicate (2 * level) ' '

mutual

/-- The pretty form of a document that stands at an indentation level. -/
def prettyChars (level : Nat) : Json → List Char
  | .null => ['n', 'u', 'l', 'l']
  | .bool true => ['t', 'r', 'u', 'e']
  | .bool false => ['f', 'a', 'l', 's', 'e']
  | .number n => n.text
  | .string s => quoted s
  | .array [] => ['[', ']']
  | .array (item :: rest) => '[' :: prettyItems level true (item :: rest)
  | .object [] => ['{', '}']
  | .object (entry :: rest) => '{' :: prettyEntries level true (entry :: rest)

/-- The items of a non-empty array up to its end. -/
def prettyItems (level : Nat) (first : Bool) : List Json → List Char
  | [] => newline level ++ [']']
  | item :: rest =>
    (if first then [] else [',']) ++ newline (level + 1) ++ prettyChars (level + 1) item ++
      prettyItems level false rest

/-- The entries of a non-empty object up to its end. -/
def prettyEntries (level : Nat) (first : Bool) : List (String × Json) → List Char
  | [] => newline level ++ ['}']
  | (key, value) :: rest =>
    (if first then [] else [',']) ++ newline (level + 1) ++ quoted key ++ ':' :: ' ' ::
      prettyChars (level + 1) value ++ prettyEntries level false rest

end

def compact (j : Json) : String := String.ofList j.compactChars

def pretty (j : Json) : String := String.ofList (j.prettyChars 0)

end CallSampler.Json
