import CallSampler.Decimal.Reading

/-!
# TOML scalars without quotes

Numbers, dates and truth values are runs of letters, digits and a few marks, so that the run is cut
off first and then recognized as a whole.
-/

namespace CallSampler.Toml.Scalar

open Decimal

/-- Whether a character belongs to the run of an unquoted scalar. -/
def isRunChar (c : Char) : Bool :=
  c.isAlphanum || c = '_' || c = '+' || c = '-' || c = '.' || c = ':'

/-- Digits with single underscores between them: without these, if they are that. -/
def grouped? (isDigit : Char → Bool) : List Char → Option (List Char)
  | [] => none
  | [c] => if isDigit c then some [c] else none
  | c :: '_' :: rest => if isDigit c then (grouped? isDigit rest).map (c :: ·) else none
  | c :: rest => if isDigit c then (grouped? isDigit rest).map (c :: ·) else none

def inBase (base : Nat) (digits : List Char) : Nat :=
  digits.foldl (fun n c => base * n + (hexValue? c).getD 0) 0

/-- An integer within 64 bits. -/
def within64 (n : Int) : Option Int :=
  if -9223372036854775808 ≤ n ∧ n < 9223372036854775808 then some n else none

/-- Decimal digits without a leading zero. -/
def decimal? (cs : List Char) : Option (List Char) :=
  (grouped? Char.isDigit cs).filter fun ds => ds.head? ≠ some '0' ∨ ds.length = 1

/-- A run that is an integer. Only a decimal one has a sign. -/
def integer? : List Char → Option Int
  | '0' :: 'x' :: rest =>
    (grouped? (fun c => (hexValue? c).isSome) rest).bind fun ds => within64 (inBase 16 ds)
  | '0' :: 'o' :: rest =>
    (grouped? (fun c => '0' ≤ c ∧ c ≤ '7') rest).bind fun ds => within64 (inBase 8 ds)
  | '0' :: 'b' :: rest =>
    (grouped? (fun c => c = '0' ∨ c = '1') rest).bind fun ds => within64 (inBase 2 ds)
  | '-' :: rest => (decimal? rest).bind fun ds => within64 (-(ofDigits ds : Int))
  | '+' :: rest => (decimal? rest).bind fun ds => within64 (ofDigits ds)
  | cs => (decimal? cs).bind fun ds => within64 (ofDigits ds)

/-- The text of a float without its underscores: decimal digits, and after them a fraction, an
exponent or both. -/
def floatText? (cs : List Char) : Option (List Char) := do
  let isMark (c : Char) : Bool := c = '.' || c = 'e' || c = 'E'
  let whole ← decimal? (cs.takeWhile fun c => !isMark c)
  let exponent? (cs : List Char) : Option (List Char) :=
    let (negative, digits) := readSign cs
    (grouped? Char.isDigit digits).map fun ds => 'e' :: if negative then '-' :: ds else ds
  match cs.dropWhile fun c => !isMark c with
  | [] => none
  | '.' :: rest =>
    let fraction ← grouped? Char.isDigit (rest.takeWhile fun c => !isMark c)
    match rest.dropWhile fun c => !isMark c with
    | [] => some (whole ++ '.' :: fraction)
    | '.' :: _ => none
    | _ :: rest => (exponent? rest).map fun e => whole ++ '.' :: fraction ++ e
  | _ :: rest => (exponent? rest).map fun e => whole ++ e

/-- A run that is a float. One that would be positively infinite has to say so. -/
def float? (cs : List Char) : Option Float :=
  let (negative, magnitude) := readSign cs
  if magnitude = ['i', 'n', 'f'] ∨ magnitude = ['n', 'a', 'n'] then
    (readMagnitude? magnitude).map fun x => if negative then -x else x
  else do
    let x ← readMagnitude? (← floatText? magnitude)
    if x.isInf && !negative then none else some (if negative then -x else x)

/-- Two digits that spell a number up to a bound, and what follows. -/
def twoDigits? (low high : Nat) : List Char → Option (Nat × List Char)
  | a :: b :: rest =>
    let n := 10 * digitValue a + digitValue b
    if a.isDigit && b.isDigit && low ≤ n && n ≤ high then some (n, rest) else none
  | _ => none

def expect? (e : Char) : List Char → Option (List Char)
  | c :: rest => if c = e then some rest else none
  | [] => none

def isLeap (year : Nat) : Bool := year % 4 = 0 && (year % 100 ≠ 0 || year % 400 = 0)

def daysIn (year month : Nat) : Nat :=
  if month = 2 then if isLeap year then 29 else 28
  else if month = 4 ∨ month = 6 ∨ month = 9 ∨ month = 11 then 30 else 31

def date? : List Char → Option (List Char)
  | a :: b :: c :: d :: rest =>
    if [a, b, c, d].all Char.isDigit then do
      let (month, rest) ← twoDigits? 1 12 (← expect? '-' rest)
      let (_, rest) ← twoDigits? 1 (daysIn (ofDigits [a, b, c, d]) month) (← expect? '-' rest)
      some rest
    else none
  | _ => none

def time? (cs : List Char) : Option (List Char) := do
  let (_, cs) ← twoDigits? 0 23 cs
  let (_, cs) ← twoDigits? 0 59 (← expect? ':' cs)
  let (_, cs) ← twoDigits? 0 60 (← expect? ':' cs)
  match cs with
  | '.' :: rest =>
    if (rest.takeWhile Char.isDigit).isEmpty then none else some (rest.dropWhile Char.isDigit)
  | cs => some cs

/-- Whether a text is an optional offset from universal time. -/
def isOffset : List Char → Bool
  | [] => true
  | ['Z'] => true
  | ['z'] => true
  | c :: rest =>
    (c = '+' || c = '-') && (do
      let (_, cs) ← twoDigits? 0 23 rest
      let (_, cs) ← twoDigits? 0 59 (← expect? ':' cs)
      some cs) == some []

/-- Whether a text is a time of day with an optional offset. -/
def isZonedTime (cs : List Char) : Bool :=
  match time? cs with
  | some rest => isOffset rest
  | none => false

def isDate (cs : List Char) : Bool := date? cs == some []

/-- Whether a run is a date, a time of day, or both with a `T` between. -/
def isMoment (cs : List Char) : Bool :=
  match date? cs with
  | some [] => true
  | some (t :: rest) => (t = 'T' || t = 't') && isZonedTime rest
  | none => time? cs == some []

end CallSampler.Toml.Scalar
