import ObjectBackend.Source.Member
import ObjectBackend.Text.Units

/-!
# Mangling

How names of the source program become parts of symbols. Every part consists of letters, digits and
underscores only, and tells by itself where it ends: a name is written after its length, and a type
has a code whose first letter says what follows. So the parts can be put together without
separators and taken apart again.
-/

namespace ObjectBackend.Target

open Text

/-- Whether a code unit stands for itself in an escaped name: an ASCII letter or digit. -/
def isPlainUnit (unit : Nat) : Bool :=
  unit < 0x80 && (Char.ofNat unit).isAlphanum

/-- One code unit in an escaped name: itself, two underscores for an underscore, or an underscore
and four hexadecimal digits. -/
def escapeUnit (unit : Nat) : List Char :=
  if unit = '_'.toNat then ['_', '_']
  else if isPlainUnit unit then [Char.ofNat unit]
  else '_' :: fixedHex 4 unit

/-- A name with all but ASCII letters and digits escaped. -/
def escape (name : String) : List Char := (unitsOf name).flatMap escapeUnit

/-- An escaped name after its length and an underscore. -/
def sized (name : String) : List Char :=
  let escaped := escape name
  Nat.toDigits 10 escaped.length ++ '_' :: escaped

/-- The letter that stands for a primitive type. -/
def primitiveCode : Primitive → Char
  | .boolean => 'Z'
  | .byte => 'B'
  | .short => 'S'
  | .char => 'C'
  | .int => 'I'
  | .long => 'J'
  | .float => 'F'
  | .double => 'D'

/-- The code of a type. -/
def typeCode : ValueType → List Char
  | .void => ['V']
  | .primitive type => [primitiveCode type]
  | .object className => 'L' :: sized className
  | .array item => 'A' :: typeCode item

/-- The parts of a method: its class, its name, its result and its parameters. -/
def methodParts (m : MethodRef) : List Char :=
  sized m.className ++ sized m.signature.name ++ typeCode m.signature.result
    ++ m.signature.parameters.flatMap typeCode

end ObjectBackend.Target
