import ObjectBackend.Floating.Shortest

/-!
# JSON values

A JSON document as data. Numbers keep their written form: what a numeral is worth depends on who
reads it, so `toInt?` and `toBinary64?` interpret it on demand. Some values are written correctly
and yet stand for nothing; they may be skipped, but whoever reads one fails.

An integer is a numeral without fraction and exponent, minus zero excepted. A real is read through
a 64-bit significand: digits are absorbed while they fit, later digits of the whole part only raise
the exponent and later digits of the fraction are dropped; the significand is rounded once, and once
more by the power of ten it is scaled with.
-/

namespace ObjectBackend

open Floating

/-- A JSON document. The members of an object keep their order and may repeat a key. -/
inductive Json where
  | null
  | bool (value : Bool)
  | number (value : Numeral)
  | string (value : String)
  | array (items : List Json)
  | object (members : List (String × Json))
  /-- A value that can only be skipped: a number out of range, a text with an unpaired surrogate, an
  object with such a key, or a container that is nested too deeply. -/
  | unreadable

namespace Json

mutual

/-- Whether a document can be read with all its parts. -/
def isReadable : Json → Bool
  | .unreadable => false
  | .array items => areReadable items
  | .object members => membersReadable members
  | _ => true

/-- Whether all items can be read. -/
def areReadable : List Json → Bool
  | [] => true
  | item :: items => item.isReadable && areReadable items

/-- Whether the values of all members can be read. -/
def membersReadable : List (String × Json) → Bool
  | [] => true
  | (_, value) :: members => value.isReadable && membersReadable members

end

end Json

namespace Floating

/-- The value of a decimal digit. -/
def digitValue (c : Char) : Nat := c.toNat - '0'.toNat

/-- The number written by decimal digits. -/
def digitsValue (digits : List Char) : Nat :=
  digits.foldl (fun n c => n * 10 + digitValue c) 0

/-- The integer a numeral writes. Minus zero is a real. -/
def Numeral.toInt? (n : Numeral) : Option Int :=
  if n.fraction.isEmpty ∧ n.exponent = none then
    let magnitude := digitsValue n.whole
    if n.negative then
      if magnitude = 0 then none else some (-(magnitude : Int))
    else some magnitude
  else none

/-- Append digits to a significand while it stays below `2 ^ 64`; how many were appended. -/
def absorb : Nat → List Char → Nat × Nat
  | significand, [] => (significand, 0)
  | significand, digit :: rest =>
    let next := significand * 10 + digitValue digit
    if next < UInt64.size then
      let (result, count) := absorb next rest
      (result, count + 1)
    else (significand, 0)

/-- The rounded power of ten. -/
def Binary64.powerOfTen (exponent : Nat) : Binary64 := .ofRatio (Nat.pow 10 exponent) 1

/-- The rounded product of two non-negative numbers, infinite if it is out of range. -/
def Binary64.times (x y : Binary64) : Binary64 :=
  match x.datum, y.datum with
  | .finite _ m e, .finite _ n k => .ofDatum (.finite false (m * n) (e + k))
  | _, _ => .ofDatum (.infinite false)

/-- The rounded quotient of two non-negative numbers, the divisor being finite and not zero. -/
def Binary64.over (x y : Binary64) : Binary64 :=
  match x.datum, y.datum with
  | .finite _ m e, .finite _ n k =>
    let (num, den) := scaleDown m n (k - e)
    .ofRatio num den
  | _, _ => .ofDatum (.infinite false)

/-- A non-negative number times a power of ten, or nothing if that is out of range. Powers beyond
`10 ^ 308` are divided out in steps of `10 ^ 308`, three of which leave zero. -/
def scaleByTen : Nat → Binary64 → Int → Option Binary64
  | 0, _, _ => some .zero
  | steps + 1, x, exponent =>
    if exponent.natAbs ≤ 308 then
      if 0 ≤ exponent then
        let product := x.times (.powerOfTen exponent.toNat)
        if product.isFinite then some product else none
      else some (x.over (.powerOfTen exponent.natAbs))
    else if x = .zero then some x
    else if 0 ≤ exponent then none
    else scaleByTen steps (x.over (.powerOfTen 308)) (exponent + 308)

/-- The real a numeral writes, or nothing if it is beyond the range of finite numbers. -/
def Numeral.toBinary64? (n : Numeral) : Option Binary64 :=
  let (whole, kept) := absorb 0 n.whole
  let (significand, fractional) := absorb whole n.fraction
  let exponent : Int := (n.whole.length - kept : Nat) - fractional + n.exponent.getD 0
  (scaleByTen 3 (.ofRatio significand 1) exponent).map fun x =>
    if n.negative then x.negate else x

end Floating

end ObjectBackend
