/-!
# The shortest decimal of a double

A finite double is `m · 2 ^ q` with a 53-bit `m`, and a decimal *reads back* to it when it lies in
the interval of reals that round to it: between the midpoints to its two neighbours, ends included
exactly when `m` is even. `shortest` looks at the two decimals around the value on grids of more
and more digits, all in natural number arithmetic, and takes the first grid that has one in the
interval; of two the nearer, and for an exact tie the side that the caller names.
-/

namespace CallSampler.Decimal

/-- What to do with two candidates at the same distance. -/
inductive Tie where
  /-- Take the one with an even last digit. -/
  | toEven
  /-- Take the greater one. -/
  | up
deriving DecidableEq, Repr

structure Scaled where
  digits : Nat
  exponent : Int
deriving DecidableEq, Repr

/-- The sign, significand and exponent of two of a finite double. -/
structure Parts where
  negative : Bool
  significand : Nat
  exponent : Int
deriving DecidableEq, Repr

/-- The least significand of full length, `2 ^ 52`: the bit that a double does not store. -/
def hiddenBit : Nat := 4503599627370496

/-- The parts of a finite double. The upper twelve bits are the sign and the biased exponent; a
biased exponent of zero stands for the exponent of one without the hidden bit. -/
def Parts.ofFloat (x : Float) : Parts :=
  let bits := x.toBits.toNat
  let biased := bits / hiddenBit % 2048
  let fraction := bits % hiddenBit
  { negative := bits / hiddenBit / 2048 = 1
    significand := if biased = 0 then fraction else fraction + hiddenBit
    exponent := (if biased = 0 then 1 else biased : Nat) - 1075 }

/-- The interval of a positive double in quarter units `2 ^ (q - 2)` of its last place, the value
itself being `4 m`: its ends are half a unit away, but below a power of two a quarter, since the
doubles there lie twice as close. -/
structure Interval where
  low : Nat
  value : Nat
  high : Nat
  closed : Bool

/-- The interval that rounds to `m · 2 ^ q`. -/
def Interval.of (m : Nat) (q : Int) : Interval where
  low := if m = hiddenBit ∧ q ≠ -1074 then 4 * m - 1 else 4 * m - 2
  value := 4 * m
  high := 4 * m + 2
  closed := m % 2 = 0

/-- The multiplier and divisor that turn quarter units of `2 ^ q` into units of `10 ^ k`. -/
def gridScale (q k : Int) : Nat × Nat :=
  (Nat.pow 2 (q - 2).toNat * Nat.pow 10 (-k).toNat,
    Nat.pow 2 (2 - q).toNat * Nat.pow 10 k.toNat)

/-- Whether `d` units of `10 ^ k` lie in the interval, the scale of the grid given. -/
def Interval.holds (i : Interval) (scale : Nat × Nat) (d : Nat) : Bool :=
  let at_ := d * scale.2
  if i.closed then decide (i.low * scale.1 ≤ at_ ∧ at_ ≤ i.high * scale.1)
  else decide (i.low * scale.1 < at_ ∧ at_ < i.high * scale.1)

/-- The candidate on the grid of `10 ^ k`, if one of the value's two neighbours there reads
back. -/
def Interval.onGrid? (i : Interval) (tie : Tie) (q k : Int) : Option Nat :=
  let scale := gridScale q k
  let below := i.value * scale.1 / scale.2
  let above := below + 1
  match i.holds scale below, i.holds scale above with
  | false, false => none
  | true, false => some below
  | false, true => some above
  | true, true =>
    let twice := 2 * (i.value * scale.1)
    let middle := (below + above) * scale.2
    if twice < middle then some below
    else if middle < twice then some above
    else match tie with
      | .up => some above
      | .toEven => some (if below % 2 = 0 then below else above)

/-- The first grid with a candidate, from `10 ^ k` on to finer ones. -/
def Interval.search (i : Interval) (tie : Tie) (q : Int) : Nat → Int → Scaled
  | 0, k => { digits := i.value * (gridScale q k).1 / (gridScale q k).2, exponent := k }
  | fuel + 1, k =>
    match i.onGrid? tie q k with
    | some d => { digits := d, exponent := k }
    | none => i.search tie q fuel (k - 1)

/-- Move the trailing zeros of the digits into the exponent. -/
def Scaled.strip : Nat → Scaled → Scaled
  | 0, s => s
  | fuel + 1, s =>
    if s.digits ≠ 0 ∧ s.digits % 10 = 0 then
      strip fuel { digits := s.digits / 10, exponent := s.exponent + 1 }
    else s

/-- The decimal of fewest digits that reads back to `m · 2 ^ q`, for a positive `m`. The search
starts at a power of ten above the value, of which `301029996 / 10 ^ 9` is the logarithm of two,
and seventeen digits always suffice. -/
def shortest (tie : Tie) (m : Nat) (q : Int) : Scaled :=
  let top : Int := ((Nat.log2 m : Int) + q + 1) * 301029996 / 1000000000 + 1
  ((Interval.of m q).search tie q 20 top).strip 20

end CallSampler.Decimal
