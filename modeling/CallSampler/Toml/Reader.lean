import CallSampler.Toml.Basic
import CallSampler.Toml.Scalar

/-!
# Reading TOML documents

TOML 1.0. A text is read into statements, line by line, and the statements into a document. Nothing
tells one malformed text from another, so every reader here answers with what it read and the rest,
or not at all.
-/

namespace CallSampler.Toml

open Decimal

/-- A reader of something in front of a text. -/
abbrev Reader (α : Type) : Type := List Char → Option (α × List Char)

/-- How many dots a key may have, plus one, and how many brackets and braces may be nested. -/
def nestingLimit : Nat := 79

def skipBlanks (cs : List Char) : List Char := cs.dropWhile fun c => c = ' ' || c = '\t'

/-- Whether a character may stand in a comment or string at all: a tab or anything that is no
control character. -/
def isPlain (c : Char) : Bool := c = '\t' || (0x20 ≤ c.toNat && c.toNat ≠ 0x7F)

def lineBreak? : List Char → Option (List Char)
  | '\n' :: rest => some rest
  | '\r' :: '\n' :: rest => some rest
  | _ => none

def skipComment : List Char → List Char
  | '#' :: rest => rest.dropWhile isPlain
  | cs => cs

/-- Take what may end a statement off the front: blanks, a comment, and a line break or the end. -/
def endOfLine? (cs : List Char) : Option (List Char) :=
  match skipComment (skipBlanks cs) with
  | [] => some []
  | cs => lineBreak? cs

/-- Drop blanks, comments and line breaks, in so many steps at most. -/
def skipLines : Nat → List Char → List Char
  | 0, cs => cs
  | fuel + 1, cs =>
    let cs := skipComment (skipBlanks cs)
    match lineBreak? cs with
    | some rest => skipLines fuel rest
    | none => cs

/-! ## Strings -/

def escape? : Reader Char
  | 'b' :: rest => some ('\x08', rest)
  | 't' :: rest => some ('\t', rest)
  | 'n' :: rest => some ('\n', rest)
  | 'f' :: rest => some ('\x0c', rest)
  | 'r' :: rest => some ('\r', rest)
  | '"' :: rest => some ('"', rest)
  | '\\' :: rest => some ('\\', rest)
  | 'u' :: rest => scalar 4 rest
  | 'U' :: rest => scalar 8 rest
  | _ => none
where
  /-- A character by the number that so many digits spell. -/
  scalar (width : Nat) (cs : List Char) : Option (Char × List Char) :=
    match ofHex? (cs.take width) with
    | some n =>
      if (cs.take width).length = width ∧ n.isValidChar then some (Char.ofNat n, cs.drop width)
      else none
    | none => none

def basicString? : Nat → Reader (List Char)
  | 0, _ => none
  | _ + 1, [] => none
  | _ + 1, '"' :: rest => some ([], rest)
  | fuel + 1, '\\' :: rest => do
    let (c, rest) ← escape? rest
    let (cs, rest) ← basicString? fuel rest
    some (c :: cs, rest)
  | fuel + 1, c :: rest =>
    if isPlain c then (basicString? fuel rest).map fun (cs, rest) => (c :: cs, rest) else none

/-- The rest of a string between single quotes, which has no escapes. -/
def literalString? : Reader (List Char)
  | [] => none
  | '\'' :: rest => some ([], rest)
  | c :: rest =>
    if isPlain c then (literalString? rest).map fun (cs, rest) => (c :: cs, rest) else none

/-- How a run of quotes ends a string of several lines: three close it, and up to two in front of
them belong to it. -/
def closing? (quote : Char) (cs : List Char) : Option (List Char × List Char) :=
  let run := (cs.takeWhile (· = quote)).length
  if run < 3 then none
  else
    let own := min (run - 3) 2
    some (List.replicate own quote, cs.drop (own + 3))

def skipSpace : List Char → List Char
  | ' ' :: rest => skipSpace rest
  | '\t' :: rest => skipSpace rest
  | '\n' :: rest => skipSpace rest
  | '\r' :: '\n' :: rest => skipSpace rest
  | cs => cs

/-- The rest of a string of several lines. Between double quotes, a backslash at the end of a line
swallows the space up to the next text. -/
def longString? (quote : Char) : Nat → Reader (List Char)
  | 0, _ => none
  | _ + 1, [] => none
  | fuel + 1, c :: rest =>
    if c = quote then
      match closing? quote (c :: rest) with
      | some closed => some closed
      | none => (longString? quote fuel rest).map fun (cs, rest) => (c :: cs, rest)
    else if c = '\\' ∧ quote = '"' then
      match lineBreak? (skipBlanks rest) with
      | some after => longString? quote fuel (skipSpace after)
      | none => do
        let (e, rest) ← escape? rest
        let (cs, rest) ← longString? quote fuel rest
        some (e :: cs, rest)
    else match lineBreak? (c :: rest) with
      | some after => (longString? quote fuel after).map fun (cs, rest) => ('\n' :: cs, rest)
      | none =>
        if isPlain c then (longString? quote fuel rest).map fun (cs, rest) => (c :: cs, rest)
        else none

/-- A line break right after the opening quotes belongs to no string. -/
def dropFirstBreak (cs : List Char) : List Char := (lineBreak? cs).getD cs

/-- A string of any of the four forms. -/
def string? (cs : List Char) : Option (String × List Char) :=
  let read : Option (List Char × List Char) := match cs with
    | '"' :: '"' :: '"' :: rest => longString? '"' (rest.length + 1) (dropFirstBreak rest)
    | '\'' :: '\'' :: '\'' :: rest => longString? '\'' (rest.length + 1) (dropFirstBreak rest)
    | '"' :: rest => basicString? (rest.length + 1) rest
    | '\'' :: rest => literalString? rest
    | _ => none
  read.map fun (s, rest) => (String.ofList s, rest)

/-! ## Keys -/

/-- Whether a character may stand in a key without quotes. -/
def isBare (c : Char) : Bool := c.isAlphanum || c = '_' || c = '-'

def keyPart? : Reader String
  | '"' :: rest => (basicString? (rest.length + 1) rest).map fun (s, r) => (String.ofList s, r)
  | '\'' :: rest => (literalString? rest).map fun (s, r) => (String.ofList s, r)
  | cs =>
    match cs.takeWhile isBare with
    | [] => none
    | s => some (String.ofList s, cs.dropWhile isBare)

/-- A key with dots between its parts, and blanks around these: all parts but the last, and the
last. -/
def key? : Nat → Reader (List String × String)
  | 0, _ => none
  | fuel + 1, cs => do
    let (part, rest) ← keyPart? (skipBlanks cs)
    match skipBlanks rest with
    | '.' :: rest =>
      let ((path, key), rest) ← key? fuel rest
      some ((part :: path, key), rest)
    | rest => some (([], part), rest)

/-! ## Values -/

/-- A scalar without quotes. A date and a time of day may have one blank between them. -/
def scalar? (cs : List Char) : Option (Toml × List Char) :=
  let run := cs.takeWhile Scalar.isRunChar
  let rest := cs.dropWhile Scalar.isRunChar
  if run = ['t', 'r', 'u', 'e'] then some (.boolean true, rest)
  else if run = ['f', 'a', 'l', 's', 'e'] then some (.boolean false, rest)
  else if Scalar.isDate run then
    match rest with
    | ' ' :: d :: more =>
      if d.isDigit then
        let tail := (d :: more).takeWhile Scalar.isRunChar
        if Scalar.isZonedTime tail then some (.moment, (d :: more).dropWhile Scalar.isRunChar)
        else none
      else some (.moment, rest)
    | rest => some (.moment, rest)
  else if Scalar.isMoment run then some (.moment, rest)
  else match Scalar.integer? run with
    | some n => some (.integer n, rest)
    | none => (Scalar.float? run).map fun x => (.float x, rest)

/-- The items of an array up to its end, given how to read one. Blanks, comments and line breaks may
stand between them, and a comma behind the last. -/
def items? (value? : Reader Toml) : Nat → Reader (List Toml)
  | 0, _ => none
  | fuel + 1, cs =>
    match skipLines cs.length cs with
    | ']' :: rest => some ([], rest)
    | cs => do
      let (v, rest) ← value? cs
      match skipLines rest.length rest with
      | ']' :: rest => some ([v], rest)
      | ',' :: rest =>
        let (vs, rest) ← items? value? fuel rest
        some (v :: vs, rest)
      | _ => none

def assignment? (value? : Reader Toml) (cs : List Char) :
    Option ((List String × String × Toml) × List Char) := do
  let ((path, key), rest) ← key? nestingLimit cs
  match rest with
  | '=' :: rest =>
    let (v, rest) ← value? (skipBlanks rest)
    some ((path, key, v), rest)
  | _ => none

/-- The entries of an inline table up to its end, of which there is at least one. They stand on one
line, without a comma behind the last. -/
def entries? (value? : Reader Toml) : Nat → Reader (List (List String × String × Toml))
  | 0, _ => none
  | fuel + 1, cs => do
    let (e, rest) ← assignment? value? cs
    match skipBlanks rest with
    | '\x7d' :: rest => some ([e], rest)
    | ',' :: rest =>
      let (es, rest) ← entries? value? fuel rest
      some (e :: es, rest)
    | _ => none

/-- A value in which so many brackets and braces may be nested. -/
def value? (levels : Nat) (cs : List Char) : Option (Toml × List Char) :=
  match cs with
  | '[' :: rest =>
    match levels with
    | 0 => none
    | n + 1 => (items? (value? n) (rest.length + 1) rest).map fun (vs, rest) => (.array vs, rest)
  | '\x7b' :: rest =>
    match levels with
    | 0 => none
    | n + 1 =>
      match skipBlanks rest with
      | '\x7d' :: rest => some (.table .inline [], rest)
      | rest => do
        let (es, rest) ← entries? (value? n) (rest.length + 1) rest
        let t ← inlineTable? es
        some (t, rest)
  | '"' :: _ => (string? cs).map fun (s, rest) => (.string s, rest)
  | '\'' :: _ => (string? cs).map fun (s, rest) => (.string s, rest)
  | _ => scalar? cs

/-! ## Documents -/

def statement? : Reader Statement
  | '[' :: '[' :: rest => do
    let ((path, key), rest) ← key? nestingLimit rest
    match rest with
    | ']' :: ']' :: rest => some (.tablesHeader path key, rest)
    | _ => none
  | '[' :: rest => do
    let ((path, key), rest) ← key? nestingLimit rest
    match rest with
    | ']' :: rest => some (.header path key, rest)
    | _ => none
  | cs => do
    let ((path, key, v), rest) ← assignment? (value? nestingLimit) cs
    some (.assign path key v, rest)

/-- The statements of a text, one step of fuel for each. -/
def statements? : Nat → List Char → Option (List Statement)
  | 0, _ => none
  | fuel + 1, cs =>
    match skipLines cs.length cs with
    | [] => some []
    | cs => do
      let (s, rest) ← statement? cs
      let rest ← endOfLine? rest
      (statements? fuel rest).map (s :: ·)

/-- The document that a text spells. A byte order mark in front is ignored. -/
def ofText? (text : String) : Option Toml := do
  let cs := match text.toList with
    | '\uFEFF' :: rest => rest
    | cs => cs
  ofStatements? (← statements? (cs.length + 1) cs)

end CallSampler.Toml
