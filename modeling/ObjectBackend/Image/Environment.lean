import ObjectBackend.Image.Label
import ObjectBackend.Target.Module

/-!
# The run-time environment

What every module expects of its environment, and the routines it brings along: the structures that
both know, the variables and functions that the environment defines, and the three-way comparisons
of numbers.
-/

namespace ObjectBackend.Environment

open Target

/-- The structures that modules and the environment have in common. -/
def types : List (Entry Label) :=
  [.typeDef (.runtime .object) [.ptr, .i32],
    .typeDef (.runtime .fields) [.ptr, .i64, .ptr],
    .typeDef (.runtime .array) [.runtime .object, .i32, .ptr],
    .typeDef (.runtime .stackFrame) [.i32, .i32, .ptr],
    .typeDef (.runtime .callSite) [.i32, .i32, .ptr]]

/-- The variables of the environment. -/
def externals : List (Entry Label) :=
  [.external (.runtime .stackTop) .ptr, .external (.runtime .pendingException) .ptr]

/-- The functions of the environment. -/
def functions : List (Entry Label) :=
  [.declare .void (.runtime .init) [],
    .declare .ptr (.runtime .alloc) [.ptr],
    .declare .ptr (.runtime .allocArray) [.ptr, .i32, .i32],
    .declare .ptr (.runtime .cloneArray) [.ptr],
    .declare .void (.runtime .throw) [.ptr],
    .declare .ptr (.runtime .catchException) [],
    .declare .i32 (.runtime .selectHandler) [.ptr, .i32]]

/-- What a module starts with. -/
def prologue : List (Entry Label) :=
  [.comment "Runtime object model", .blank] ++ types ++ [.blank] ++ externals ++ [.blank]
    ++ functions

/-- The comparison of two numbers of a type: minus one, zero or one. A real that is undefined is
neither less nor greater than another one. -/
def comparison (type : Numeric) : Function Label :=
  let ir := IrType.ofKind type.kind
  let a := Value.register (.named "a")
  let b := Value.register (.named "b")
  let less := Value.register (.named "lt")
  let greater := Value.register (.named "gt")
  let lessInt := Value.register (.named "lt.i")
  let greaterInt := Value.register (.named "gt.i")
  let result := Value.register (.named "r")
  { name := .runtime (.compare type)
    result := .i32
    parameters := [⟨ir, a⟩, ⟨ir, b⟩]
    blocks :=
      [{ label := .entry
         lines :=
           [.define less (if type.isFloating then .fcmp .olt ir a b else .icmp .slt ir a b),
             .define greater (if type.isFloating then .fcmp .ogt ir a b else .icmp .sgt ir a b),
             .define lessInt (.cast .zext ⟨.i1, less⟩ .i32),
             .define greaterInt (.cast .zext ⟨.i1, greater⟩ .i32),
             .define result (.binary .sub .i32 greaterInt lessInt),
             .leave (.ret (some ⟨.i32, result⟩))] }] }

/-- What a module ends with. -/
def epilogue : List (Entry Label) :=
  [.comment "Three-way comparisons"]
    ++ Numeric.all.flatMap fun type => [.blank, .define (comparison type)]

end ObjectBackend.Environment
