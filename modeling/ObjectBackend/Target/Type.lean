import ObjectBackend.Target.Symbol

/-!
# Types of the emitted code

The types of registers and of memory. A value of the program has two of them: `IrType.ofKind` is
what a register holds, where the short integers are as wide as `int`, and `IrType.storage` what a
field or an element occupies. Pointers do not say what they point to.
-/

namespace ObjectBackend.Target

/-- A type of the emitted code. -/
inductive IrType where
  | void
  | i1
  | i8
  | i16
  | i32
  | i64
  | float
  | double
  | ptr
  | named (name : TypeName)
  | array (length : Nat) (item : IrType)
  | struct (fields : List IrType)

namespace IrType

mutual

/-- Whether two types are the same. -/
def beq : IrType → IrType → Bool
  | .void, .void => true
  | .i1, .i1 => true
  | .i8, .i8 => true
  | .i16, .i16 => true
  | .i32, .i32 => true
  | .i64, .i64 => true
  | .float, .float => true
  | .double, .double => true
  | .ptr, .ptr => true
  | .named a, .named b => a = b
  | .array n a, .array m b => n = m && beq a b
  | .struct as, .struct bs => beqList as bs
  | _, _ => false

/-- Whether two lists of types are the same. -/
def beqList : List IrType → List IrType → Bool
  | [], [] => true
  | a :: as, b :: bs => beq a b && beqList as bs
  | _, _ => false

end

mutual

/-- The comparison of types is equality. -/
theorem beq_iff (a b : IrType) : beq a b = true ↔ a = b := by
  match a, b with
  | .array n a, .array m b => simp [beq, beq_iff a b]
  | .struct as, .struct bs => simp [beq, beqList_iff as bs]
  | .void, b => cases b <;> simp [beq]
  | .i1, b => cases b <;> simp [beq]
  | .i8, b => cases b <;> simp [beq]
  | .i16, b => cases b <;> simp [beq]
  | .i32, b => cases b <;> simp [beq]
  | .i64, b => cases b <;> simp [beq]
  | .float, b => cases b <;> simp [beq]
  | .double, b => cases b <;> simp [beq]
  | .ptr, b => cases b <;> simp [beq]
  | .named a, b => cases b <;> simp [beq]
  | .array n a, .void | .array n a, .i1 | .array n a, .i8 | .array n a, .i16 | .array n a, .i32
  | .array n a, .i64 | .array n a, .float | .array n a, .double | .array n a, .ptr
  | .array n a, .named _ | .array n a, .struct _ => simp [beq]
  | .struct as, .void | .struct as, .i1 | .struct as, .i8 | .struct as, .i16 | .struct as, .i32
  | .struct as, .i64 | .struct as, .float | .struct as, .double | .struct as, .ptr
  | .struct as, .named _ | .struct as, .array _ _ => simp [beq]

/-- The comparison of lists of types is equality. -/
theorem beqList_iff (as bs : List IrType) : beqList as bs = true ↔ as = bs := by
  match as, bs with
  | [], [] => simp [beqList]
  | a :: as, b :: bs => simp [beqList, beq_iff a b, beqList_iff as bs]
  | [], _ :: _ => simp [beqList]
  | _ :: _, [] => simp [beqList]

end

/-- Whether two types are equal is told by the structural comparison. -/
instance : DecidableEq IrType := fun a b => decidable_of_iff _ (beq_iff a b)

mutual

/-- The text of a type. -/
def text : IrType → String
  | void => "void"
  | i1 => "i1"
  | i8 => "i8"
  | i16 => "i16"
  | i32 => "i32"
  | i64 => "i64"
  | float => "float"
  | double => "double"
  | ptr => "ptr"
  | named name => "%" ++ name.text
  | array length item => "[" ++ toString length ++ " x " ++ item.text ++ "]"
  | struct fields => "\x7b " ++ String.intercalate ", " (texts fields) ++ " \x7d"

/-- The texts of several types. -/
def texts : List IrType → List String
  | [] => []
  | type :: types => type.text :: texts types

end

/-- A structure that the run-time environment knows. -/
def runtime (type : RuntimeType) : IrType := named (.runtime type)

/-- The type of a register that holds a value of a kind. -/
def ofKind : Kind → IrType
  | .int => i32
  | .long => i64
  | .float => float
  | .double => double
  | .object | .array _ => ptr

/-- The type of a parameter or a result. -/
def ofValue (type : ValueType) : IrType := type.kind.elim void ofKind

/-- The type of the memory of an element. -/
def element : ElementKind → IrType
  | .byte => i8
  | .short | .char => i16
  | .int => i32
  | .long => i64
  | .float => float
  | .double => double
  | .object => ptr

/-- The type of the memory of a field. -/
def storage : ValueType → IrType
  | .void => void
  | .primitive type => element type.elementKind
  | .object _ | .array _ => ptr

/-- The size of a scalar in bytes. -/
def scalarSize? : IrType → Option Nat
  | i1 | i8 => some 1
  | i16 => some 2
  | i32 | float => some 4
  | i64 | double | ptr => some 8
  | _ => none

/-- Whether values of the type have a fraction. -/
def isFloating : IrType → Bool
  | float | double => true
  | _ => false

/-- Whether values of the type are integers. -/
def isInteger : IrType → Bool
  | i1 | i8 | i16 | i32 | i64 => true
  | _ => false

/-- The width of a number in bits. -/
def width? : IrType → Option Nat
  | i1 => some 1
  | i8 => some 8
  | i16 => some 16
  | i32 | float => some 32
  | i64 | double => some 64
  | _ => none

end IrType

end ObjectBackend.Target
