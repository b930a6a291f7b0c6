/-!
# Floating-point words

Binary floating-point numbers as the words that store them. A `Format` gives the widths of the two
fields, `decode` reads a word as a datum, and `roundRatio` finds the word nearest to a quotient of
natural numbers, ties to even, in exact arithmetic. `Binary32` and `Binary64` are the two formats a
program can use, kept as bit patterns so that equal numbers are equal data.
-/

namespace ObjectBackend.Floating

/-- A binary interchange format: the widths of the fraction and of the exponent field. -/
structure Format where
  fractionBits : Nat
  exponentBits : Nat
deriving DecidableEq

/-- What a word stands for; a finite number is `significand * 2 ^ exponent` with its sign. -/
inductive Datum where
  | finite (negative : Bool) (significand : Nat) (exponent : Int)
  | infinite (negative : Bool)
  | undefined
deriving DecidableEq

/-- A quotient of naturals scaled down by a power of two, as numerator and denominator. -/
def scaleDown (num den : Nat) (exponent : Int) : Nat × Nat :=
  (num * Nat.pow 2 (-exponent).toNat, den * Nat.pow 2 exponent.toNat)

/-- The binary logarithm of a positive quotient, rounded down. -/
def binaryLog (num den : Nat) : Int :=
  let guess : Int := num.log2 - den.log2
  let (n, d) := scaleDown num den guess
  if n < d then guess - 1 else guess

/-- The natural number nearest to a quotient, a tie going to the even one. -/
def roundEven (num den : Nat) : Nat :=
  let quotient := num / den
  let twice := 2 * (num % den)
  if den < twice ∨ (twice = den ∧ quotient % 2 = 1) then quotient + 1 else quotient

namespace Format

/-- The 32-bit format. -/
def single : Format := ⟨23, 8⟩

/-- The 64-bit format. -/
def double : Format := ⟨52, 11⟩

/-- The exponent of the least significant bit of the numbers nearest to zero. -/
def unitExponent (f : Format) : Int :=
  2 - (Nat.pow 2 (f.exponentBits - 1) : Nat) - f.fractionBits

/-- The word of positive infinity. -/
def infinity (f : Format) : Nat :=
  (Nat.pow 2 f.exponentBits - 1) * Nat.pow 2 f.fractionBits

/-- The weight of the sign bit. -/
def signWeight (f : Format) : Nat :=
  Nat.pow 2 (f.fractionBits + f.exponentBits)

/-- What a word stands for. -/
def decode (f : Format) (word : Nat) : Datum :=
  let negative := word / f.signWeight % 2 == 1
  let field := word / Nat.pow 2 f.fractionBits % Nat.pow 2 f.exponentBits
  let fraction := word % Nat.pow 2 f.fractionBits
  if field = Nat.pow 2 f.exponentBits - 1 then
    if fraction = 0 then .infinite negative else .undefined
  else if field = 0 then .finite negative fraction f.unitExponent
  else .finite negative (Nat.pow 2 f.fractionBits + fraction) (f.unitExponent + (field - 1 : Nat))

/-- The word nearest to a non-negative quotient. The significand of a normal number carries its
leading bit into the exponent field, so a carry out of the significand needs no case of its own. -/
def roundRatio (f : Format) (num den : Nat) : Nat :=
  if num = 0 then 0
  else
    let exponent := max (binaryLog num den - f.fractionBits) f.unitExponent
    let (n, d) := scaleDown num den exponent
    min ((exponent - f.unitExponent).toNat * Nat.pow 2 f.fractionBits + roundEven n d) f.infinity

/-- The word of a datum, a finite one being rounded to the format. -/
def encode (f : Format) : Datum → Nat
  | .finite negative significand exponent =>
    let (n, d) := scaleDown significand 1 (-exponent)
    (if negative then f.signWeight else 0) + f.roundRatio n d
  | .infinite negative => (if negative then f.signWeight else 0) + f.infinity
  | .undefined => f.infinity + Nat.pow 2 (f.fractionBits - 1)

end Format

/-- A 32-bit floating-point number. -/
structure Binary32 where
  bits : UInt32
deriving DecidableEq

/-- A 64-bit floating-point number. -/
structure Binary64 where
  bits : UInt64
deriving DecidableEq

namespace Binary32

/-- What the number stands for. -/
def datum (x : Binary32) : Datum := Format.single.decode x.bits.toNat

/-- The number nearest to a datum. -/
def ofDatum (d : Datum) : Binary32 := ⟨UInt32.ofNat (Format.single.encode d)⟩

/-- Whether the number is neither infinite nor undefined. -/
def isFinite (x : Binary32) : Bool :=
  match x.datum with
  | .finite .. => true
  | _ => false

/-- The same number in the wider format. -/
def widen (x : Binary32) : Binary64 := ⟨UInt64.ofNat (Format.double.encode x.datum)⟩

end Binary32

namespace Binary64

/-- What the number stands for. -/
def datum (x : Binary64) : Datum := Format.double.decode x.bits.toNat

/-- The number nearest to a datum. -/
def ofDatum (d : Datum) : Binary64 := ⟨UInt64.ofNat (Format.double.encode d)⟩

/-- Whether the number is neither infinite nor undefined. -/
def isFinite (x : Binary64) : Bool :=
  match x.datum with
  | .finite .. => true
  | _ => false

/-- The nearest number of the narrower format. -/
def narrow (x : Binary64) : Binary32 := .ofDatum x.datum

/-- The number nearest to a non-negative quotient. -/
def ofRatio (num den : Nat) : Binary64 := ⟨UInt64.ofNat (Format.double.roundRatio num den)⟩

/-- Positive zero. -/
def zero : Binary64 := ⟨0⟩

/-- The same number with the other sign. -/
def negate (x : Binary64) : Binary64 := ⟨x.bits ^^^ 0x8000000000000000⟩

end Binary64

end ObjectBackend.Floating
