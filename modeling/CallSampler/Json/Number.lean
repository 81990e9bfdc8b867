import CallSampler.Json.Basic
import CallSampler.Decimal.Layout
import CallSampler.Decimal.Reading

/-!
# Numbers in JSON text

An integer literal that fits 64 bits is an integer, and every other literal is a float. A float is
read quickly rather than to the nearest double: the leading digits that fit 64 bits are rounded
to a double once and then multiplied or divided by a power of ten, which rounds again. So a text
of many digits may land one double beside the nearest.
-/

namespace CallSampler.Number

open Decimal

/-- The text of a number. A float without a JSON form never gets here: it is captured as text. -/
def text : Number → List Char
  | .integer i => if i < 0 then '-' :: digitChars i.natAbs else digitChars i.natAbs
  | .float x => (Layout.json.text x).toList

structure Literal where
  negative : Bool
  whole : List Char
  fraction : Option (List Char)
  /-- Whether the exponent is negative, and its digits. -/
  exponent : Option (Bool × List Char)

/-- The whole digits of a literal: one zero, or digits without a leading zero. -/
def wholeDigits? (cs : List Char) : Option (List Char × List Char) :=
  match spanDigits cs with
  | ([], _) => none
  | ('0' :: _ :: _, _) => none
  | (digits, rest) => some (digits, rest)

/-- The optional fraction of a literal: a point and at least one digit. -/
def fraction? : List Char → Option (Option (List Char) × List Char)
  | '.' :: rest =>
    match spanDigits rest with
    | ([], _) => none
    | (digits, rest) => some (some digits, rest)
  | cs => some (none, cs)

/-- The optional exponent of a literal: a marker, an optional sign and at least one digit. -/
def exponent? : List Char → Option (Option (Bool × List Char) × List Char)
  | [] => some (none, [])
  | c :: rest =>
    if c = 'e' ∨ c = 'E' then
      let (negative, rest) := readSign rest
      match spanDigits rest with
      | ([], _) => none
      | (digits, rest) => some (some (negative, digits), rest)
    else some (none, c :: rest)

/-- The longest literal without a sign in front of a text, and what follows it. -/
def unsigned? (negative : Bool) (cs : List Char) : Option (Literal × List Char) := do
  let (whole, cs) ← wholeDigits? cs
  let (fraction, cs) ← fraction? cs
  let (exponent, cs) ← exponent? cs
  some ({ negative, whole, fraction, exponent }, cs)

/-- The longest number literal in front of a text, and what follows it. -/
def literal? : List Char → Option (Literal × List Char)
  | '-' :: rest => unsigned? true rest
  | cs => unsigned? false cs

/-- Append digits to a significand while it fits 64 bits: the significand, and how many digits
were left over from the first that did not fit. -/
def absorb (significand : Nat) : List Char → Nat × Nat
  | [] => (significand, 0)
  | c :: rest =>
    let next := 10 * significand + digitValue c
    if next < wordLimit then absorb next rest else (significand, rest.length + 1)

def powerOfTen (k : Nat) : Float := Float.ofScientific 1 false k

/-- Multiply a double by `10 ^ e`, in steps that each round. `none` when it overflows. A
significand below `2 ^ 64` vanishes in the second division by `1e308`, so three steps down are
enough. -/
def scale? : Nat → Float → Int → Option Float
  | 0, _, _ => some 0.0
  | fuel + 1, x, e =>
    if e.natAbs ≤ 308 then
      if 0 ≤ e then
        let y := x * powerOfTen e.natAbs
        if y.isInf then none else some y
      else some (x / powerOfTen e.natAbs)
    else if x == 0.0 then some x
    else if 0 ≤ e then none
    else scale? fuel (x / powerOfTen 308) (e + 308)

/-- The float that a significand and a decimal exponent stand for. -/
def ofScaled? (negative : Bool) (significand : Nat) (exponent : Int) : Option Number :=
  (scale? 3 (Float.ofNat significand) exponent).map fun x =>
    .float (if negative then -x else x)

/-- The value of a literal with neither point nor exponent, given its significand and how many
digits that left over. -/
def ofWhole? (negative : Bool) (significand dropped : Nat) : Option Number :=
  if dropped ≠ 0 then ofScaled? negative significand dropped
  else if !negative then some (.integer significand)
  else if 1 ≤ significand ∧ significand ≤ 9223372036854775808 then some (.integer (-significand))
  else some (.float (-(Float.ofNat significand)))

/-- The value of a literal with a significand, a power of ten and an exponent on top of it. An
exponent that no machine integer holds makes the value zero or too great. -/
def ofDecimal? (negative : Bool) (significand : Nat) (start : Int)
    (exponent : Option (Bool × List Char)) : Option Number :=
  match exponent with
  | none => ofScaled? negative significand start
  | some (down, digits) =>
    let e := ofDigits digits
    if 2147483648 ≤ e then
      if significand ≠ 0 ∧ !down then none
      else some (.float (if negative then -0.0 else 0.0))
    else ofScaled? negative significand (if down then start - e else start + e)

/-- The value of a literal, unless it is too great for a double. -/
def ofLiteral? (l : Literal) : Option Number :=
  let whole := absorb 0 l.whole
  match l.fraction, l.exponent with
  | none, none => ofWhole? l.negative whole.1 whole.2
  | fraction, exponent =>
    let digits := fraction.getD []
    let all := absorb whole.1 digits
    ofDecimal? l.negative all.1 (whole.2 - (digits.length - all.2 : Nat)) exponent

def read? (cs : List Char) : Option (Number × List Char) := do
  let (l, rest) ← literal? cs
  let n ← ofLiteral? l
  some (n, rest)

end CallSampler.Number
