import ObjectBackend.Floating.Word

/-!
# Shortest decimals

The shortest decimal that a format reads back as the same number. A finite number owns the interval
of reals that round to it, whose ends belong to it exactly if its significand is even. For one
digit, two digits and so on, the two neighbours of the number on that decimal grid are tested
against the interval in exact arithmetic; the first grid with a hit wins, and of two hits the
nearer. How the digits are then laid out as a `Numeral` is a matter of `DecimalStyle`.
-/

namespace ObjectBackend.Floating

/-- Which of two decimals is taken when both are equally near. -/
inductive Tie where
  | even
  | up
deriving DecidableEq

/-- The decimal `0.d₁d₂… * 10 ^ point`. -/
structure Decimal where
  digits : List Char
  point : Int
deriving DecidableEq

/-- The number of decimal digits of a natural number. -/
def digitCount (n : Nat) : Nat := (Nat.toDigits 10 n).length

/-- The `point` of a positive quotient: its digits start right after `10 ^ point`. -/
def decimalPoint (num den : Nat) : Int :=
  if den ≤ num then digitCount (num / den)
  else
    let shift := digitCount den - digitCount num
    if den ≤ num * Nat.pow 10 shift then 1 - (shift : Int) else -(shift : Int)

/-- A candidate on a decimal grid is accepted if it lies in the interval of the number. -/
structure Grid where
  /-- One step of the grid, on the scale of the other fields. -/
  step : Nat
  value : Nat
  lower : Nat
  upper : Nat
  closed : Bool

/-- Whether the multiple `c` of the grid's step rounds to the number. -/
def Grid.accepts (g : Grid) (c : Nat) : Bool :=
  if g.closed then g.lower ≤ c * g.step && c * g.step ≤ g.upper
  else g.lower < c * g.step && c * g.step < g.upper

/-- The accepted neighbour of the number on a grid, the nearer one if both are accepted. -/
def Grid.nearest? (g : Grid) (tie : Tie) : Option Nat :=
  let below := g.value / g.step
  match g.accepts below, g.accepts (below + 1) with
  | false, false => none
  | true, false => some below
  | false, true => some (below + 1)
  | true, true =>
    let down := g.value - below * g.step
    let up := (below + 1) * g.step - g.value
    if down < up then some below
    else if up < down then some (below + 1)
    else
      match tie with
      | .up => some (below + 1)
      | .even => some (if below % 2 = 0 then below else below + 1)

/-- The grid of decimals with `count` digits around `significand * 2 ^ exponent`. Everything is
taken in quarters of the number's last bit, so that the ends of its interval are whole. -/
def Format.grid (f : Format) (significand : Nat) (exponent : Int) (point : Int) (count : Nat) :
    Grid :=
  let (num, den) := scaleDown 1 1 (2 - exponent)
  let power := point - count
  let scale := num * Nat.pow 10 (-power).toNat
  let gap := if significand = Nat.pow 2 f.fractionBits ∧ f.unitExponent < exponent then 1 else 2
  { step := den * Nat.pow 10 power.toNat
    value := 4 * significand * scale
    lower := (4 * significand - gap) * scale
    upper := (4 * significand + 2) * scale
    closed := significand % 2 = 0 }

/-- The shortest decimal of the positive number `significand * 2 ^ exponent`. Seventeen digits tell
any two numbers of either format apart. -/
def Format.shortest (f : Format) (tie : Tie) (significand : Nat) (exponent : Int) : Decimal :=
  let (num, den) := scaleDown significand 1 (-exponent)
  let point := decimalPoint num den
  let search := (List.range' 1 17).findSome? fun count =>
    ((f.grid significand exponent point count).nearest? tie).map ((·, count))
  let (chosen, count) := search.getD (significand, 0)
  let written := Nat.toDigits 10 chosen
  { digits := (written.reverse.dropWhile (· == '0')).reverse
    point := written.length + (point - count) }

/-- A number in decimal writing: a sign, digits before and after the point, and an exponent. -/
structure Numeral where
  negative : Bool
  whole : List Char
  fraction : List Char
  exponent : Option Int
deriving DecidableEq

/-- Whether a plus sign stands before an exponent that is not negative. -/
inductive PlusSign where
  | omitted
  | written
deriving DecidableEq

/-- The text of an exponent. -/
def exponentText (plus : PlusSign) (exponent : Int) : String :=
  let sign := if plus = .written ∧ 0 ≤ exponent then "+" else ""
  "e" ++ sign ++ toString exponent

/-- The text of a numeral. The point is written only before digits. -/
def Numeral.text (plus : PlusSign) (n : Numeral) : String :=
  let sign := if n.negative then "-" else ""
  let fraction := if n.fraction.isEmpty then "" else "." ++ String.ofList n.fraction
  sign ++ String.ofList n.whole ++ fraction ++ (n.exponent.map (exponentText plus)).getD ""

/-- The numeral of an integer. -/
def Numeral.ofInt (n : Int) : Numeral :=
  { negative := n < 0, whole := Nat.toDigits 10 n.natAbs, fraction := [], exponent := none }

/-- How a decimal is laid out: positionally while its point lies between the two bounds, and with
an exponent otherwise. -/
structure DecimalStyle where
  leastPoint : Int
  greatestPoint : Int
  tie : Tie

namespace DecimalStyle

/-- A decimal as a numeral. A whole number written positionally has one zero after the point. -/
def layOut (style : DecimalStyle) (negative : Bool) (d : Decimal) : Numeral :=
  let count : Int := d.digits.length
  if style.leastPoint ≤ d.point ∧ d.point ≤ style.greatestPoint then
    if d.point ≤ 0 then
      { negative
        whole := ['0']
        fraction := List.replicate (-d.point).toNat '0' ++ d.digits
        exponent := none }
    else if count ≤ d.point then
      { negative
        whole := d.digits ++ List.replicate (d.point - count).toNat '0'
        fraction := ['0']
        exponent := none }
    else
      { negative
        whole := d.digits.take d.point.toNat
        fraction := d.digits.drop d.point.toNat
        exponent := none }
  else
    { negative
      whole := d.digits.take 1
      fraction := d.digits.drop 1
      exponent := some (d.point - 1) }

/-- The shortest numeral of a finite datum of a format. -/
def numeral (style : DecimalStyle) (f : Format) (negative : Bool) (significand : Nat)
    (exponent : Int) : Numeral :=
  if significand = 0 then { negative, whole := ['0'], fraction := ['0'], exponent := none }
  else style.layOut negative (f.shortest style.tie significand exponent)

end DecimalStyle

end ObjectBackend.Floating
