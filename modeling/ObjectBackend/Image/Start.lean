import ObjectBackend.Backend.Basic
import ObjectBackend.Image.Label
import ObjectBackend.Target.Module

/-!
# Starting up

The functions that are run before and around the methods of a program: the initializer of a class,
which runs at most once, and the entry point of the module.
-/

namespace ObjectBackend

open Target

/-- The flag of a class that has been initialized: the sign bit. -/
def initializedFlag : Int := Int32.minValue.toInt

/-- The initializer of a class: unless the flag is set, set it, initialize the parent and run the
class's own initializer. -/
def Program.initializer (p : Program) (c : ClassDef) : Function Label :=
  let flags := Value.part (.runtime .header) (.metadata c.name) [0, 1]
  let temporary (n : Nat) := Value.register (.temporary n)
  let call (s : Symbol) : Line Label Label := .run (.call .void (.symbol s) [])
  let parent := c.parentName.filter p.needsInitialization
  { name := .initializer c.name
    result := .void
    parameters := []
    blocks :=
      [{ label := .entry
         lines :=
           [.define (temporary 0) (.load .i32 flags),
             .define (temporary 1) (.binary .and .i32 (temporary 0) (.int initializedFlag)),
             .define (temporary 2) (.icmp .ne .i32 (temporary 1) (.int 0)),
             .leave (.condBr (temporary 2) .exit .init)] },
        { label := .init
          lines :=
            [.define (temporary 3) (.binary .or .i32 (temporary 0) (.int initializedFlag)),
              .run (.store ⟨.i32, temporary 3⟩ flags)]
            ++ (parent.map fun name => call (.initializer name)).toList
            ++ (c.initializer?.map fun m => call (.method (c.reference m))).toList
            ++ [.leave (.br .exit)] },
        { label := .exit, lines := [.leave (.ret none)] }] }

/-- The entry point of a module: start the environment, mark the literals, and run the static method
that a reference resolves to, with zero for every argument. -/
def Program.main (p : Program) (entry : MethodRef) : Except BackendError (Function Label) :=
  match p.resolveMethod? entry with
  | none => .error (.missingMethod .declared entry)
  | some (owner, m) =>
    if !m.isStatic then .error (.missingMethod .static entry)
    else
      let call (s : Symbol) : Line Label Label := .run (.call .void (.symbol s) [])
      let result := IrType.ofValue m.signature.result
      let arguments := m.signature.parameters.map fun type =>
        let ir := IrType.ofValue type
        Operand.mk ir (.zeroOf ir)
      let run := Instr.call result (.symbol (.method (owner.reference m))) arguments
      .ok
        { name := .main
          result := .i32
          parameters := []
          blocks :=
            [{ label := .entry
               lines :=
                 [call (.runtime .init), call (.runtime .initStringPool),
                   if result = .void then .run run
                   else .define (.register (.temporary 0)) run,
                   .leave (.ret (some (.i32 0)))] }] }

end ObjectBackend
