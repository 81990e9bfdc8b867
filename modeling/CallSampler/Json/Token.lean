import CallSampler.Json.Number

/-!
# Tokens of JSON text

Strict JSON: blanks are space, tab, line feed and carriage return; a string holds no raw control
character and no escape of a lone surrogate.
-/

namespace CallSampler.Json

/-- A lexical unit of JSON text. -/
inductive Token where
  | openArray
  | closeArray
  | openObject
  | closeObject
  | comma
  | colon
  | null
  | bool (value : Bool)
  | number (value : Number)
  | string (value : String)
deriving DecidableEq

def isBlank (c : Char) : Bool := c = ' ' || c = '\t' || c = '\n' || c = '\r'

def escaped? : Char → Option Char
  | '"' => some '"'
  | '\\' => some '\\'
  | '/' => some '/'
  | 'b' => some '\x08'
  | 'f' => some '\x0c'
  | 'n' => some '\n'
  | 'r' => some '\r'
  | 't' => some '\t'
  | _ => none

def fourHex? (a b c d : Char) : Option Nat := Decimal.ofHex? [a, b, c, d]

/-- The character of two four-digit escapes, the first a leading and the second a trailing
surrogate. -/
def pair? (high low : Nat) : Option Char :=
  if 0xD800 ≤ high ∧ high < 0xDC00 ∧ 0xDC00 ≤ low ∧ low < 0xE000 then
    some (Char.ofNat (0x10000 + (high - 0xD800) * 0x400 + (low - 0xDC00)))
  else none

/-- The characters of a string whose opening quote has been read, and what follows its closing
quote. -/
def readString? : List Char → Option (List Char × List Char)
  | [] => none
  | '"' :: rest => some ([], rest)
  | '\\' :: 'u' :: a :: b :: c :: d :: rest =>
    match fourHex? a b c d with
    | none => none
    | some n =>
      if 0xD800 ≤ n ∧ n < 0xE000 then
        match rest with
        | '\\' :: 'u' :: a' :: b' :: c' :: d' :: rest' =>
          match (fourHex? a' b' c' d').bind (pair? n) with
          | none => none
          | some ch => (readString? rest').map fun (cs, r) => (ch :: cs, r)
        | _ => none
      else (readString? rest).map fun (cs, r) => (Char.ofNat n :: cs, r)
  | '\\' :: e :: rest =>
    match escaped? e with
    | none => none
    | some ch => (readString? rest).map fun (cs, r) => (ch :: cs, r)
  | c :: rest =>
    if c.toNat < 0x20 ∨ c = '\\' then none
    else (readString? rest).map fun (cs, r) => (c :: cs, r)

def after? : List Char → List Char → Option (List Char)
  | [], cs => some cs
  | e :: es, c :: cs => if e = c then after? es cs else none
  | _ :: _, [] => none

/-- The token that starts with a given character, and what follows it. -/
def token? (c : Char) (rest : List Char) : Option (Token × List Char) :=
  match c with
  | '[' => some (.openArray, rest)
  | ']' => some (.closeArray, rest)
  | '{' => some (.openObject, rest)
  | '}' => some (.closeObject, rest)
  | ',' => some (.comma, rest)
  | ':' => some (.colon, rest)
  | 'n' => (after? ['u', 'l', 'l'] rest).map fun r => (.null, r)
  | 't' => (after? ['r', 'u', 'e'] rest).map fun r => (.bool true, r)
  | 'f' => (after? ['a', 'l', 's', 'e'] rest).map fun r => (.bool false, r)
  | '"' => (readString? rest).map fun (cs, r) => (.string (String.ofList cs), r)
  | c => (Number.read? (c :: rest)).map fun (n, r) => (.number n, r)

/-- The tokens of a text, one step of fuel for each of them and each blank. -/
def lex? : Nat → List Char → Option (List Token)
  | _, [] => some []
  | 0, _ :: _ => none
  | fuel + 1, c :: rest =>
    if isBlank c then lex? fuel rest
    else match token? c rest with
      | none => none
      | some (t, rest) => (lex? fuel rest).map (t :: ·)

/-- The tokens of a text, or `none` if some part of it is none. -/
def tokens? (cs : List Char) : Option (List Token) := lex? cs.length cs

end CallSampler.Json
