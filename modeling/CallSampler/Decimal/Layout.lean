import CallSampler.Decimal.Shortest

/-!
# Writing a double

Every double is written with the fewest digits that read back to it. A `Layout` holds what is left
to decide: which decimal exponents are written positionally, which way ties go, and whether a
positive exponent carries a sign.
-/

namespace CallSampler.Decimal

/-- How the digits of a double are laid out. -/
structure Layout where
  /-- The smallest exponent of the leading digit that is written positionally. -/
  leastFixed : Int
  /-- The greatest one. -/
  greatestFixed : Int
  tie : Tie
  /-- Whether a positive exponent is written with a plus sign. -/
  plusSign : Bool

/-- The layout of a float in the display form of a value: positional from `0.0001` up to but
excluding `1e16`. -/
def Layout.display : Layout :=
  { leastFixed := -4, greatestFixed := 15, tie := .up, plusSign := false }

/-- The layout of a float in JSON text: positional from `0.00001` up to but excluding `1e+16`. -/
def Layout.json : Layout :=
  { leastFixed := -5, greatestFixed := 15, tie := .toEven, plusSign := true }

def digitChars (n : Nat) : List Char := Nat.toDigits 10 n

/-- Digits with the decimal point so placed that the leading one counts `10 ^ lead`, with at least
one digit on each side. -/
def positional (digits : List Char) (lead : Int) : List Char :=
  if lead < 0 then
    '0' :: '.' :: List.replicate (-lead - 1).toNat '0' ++ digits
  else
    let whole := lead.toNat + 1
    let padded := digits ++ List.replicate (whole - digits.length) '0'
    let fraction := padded.drop whole
    padded.take whole ++ '.' :: (if fraction.isEmpty then ['0'] else fraction)

/-- Digits with the point after the first one, if there are more, and the exponent. -/
def scientific (plusSign : Bool) (digits : List Char) (lead : Int) : List Char :=
  let mantissa := match digits with
    | [] => []
    | [d] => [d]
    | d :: rest => d :: '.' :: rest
  let sign := if lead < 0 then ['-'] else if plusSign then ['+'] else []
  mantissa ++ 'e' :: sign ++ digitChars lead.natAbs

def Layout.finite (layout : Layout) (x : Float) : List Char :=
  let parts := Parts.ofFloat x
  let sign := if parts.negative then ['-'] else []
  if parts.significand = 0 then sign ++ ['0', '.', '0']
  else
    let s := shortest layout.tie parts.significand parts.exponent
    let digits := digitChars s.digits
    let lead := s.exponent + digits.length - 1
    if layout.leastFixed ≤ lead ∧ lead ≤ layout.greatestFixed then
      sign ++ positional digits lead
    else
      sign ++ scientific layout.plusSign digits lead

/-- The text of any double: `nan` whatever its sign, `inf` and `-inf` for the infinities. -/
def Layout.text (layout : Layout) (x : Float) : String :=
  if x.isNaN then "nan"
  else if x.isInf then if (0 : Float) < x then "inf" else "-inf"
  else String.ofList (layout.finite x)

end CallSampler.Decimal
