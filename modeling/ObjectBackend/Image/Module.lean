import ObjectBackend.Image.Environment
import ObjectBackend.Image.Metadata
import ObjectBackend.Image.Start
import ObjectBackend.Lowering.Method

/-!
# Whole modules

The entries of a module in their order. Classes are taken by name and their members as declared, so
that the text of a module does not depend on the order in which a program lists its classes.
-/

namespace ObjectBackend

open Target

/-- The heading of a module: its name and what it is compiled for. -/
def Settings.heading (s : Settings) : List (Entry Label) :=
  [.comment ("ModuleID = '" ++ s.moduleName ++ "'"), .sourceName s.moduleName]
    ++ (s.dataLayout.map Entry.dataLayout).toList
    ++ (s.targetTriple.map Entry.targetTriple).toList
    ++ [.blank]

namespace Backend

/-- The methods of a class, with a blank line after each. -/
def methods (b : Backend) (c : ClassDef) : Pooled (List (Entry Label)) := do
  let entries ← c.methods.mapM (Lowering.method b c)
  return entries.reduceOption.flatMap fun entry => [entry, .blank]

/-- The initializers of all classes that need one, with a blank line after each. -/
def initializers (b : Backend) : List (Entry Label) :=
  (b.program.sortedClasses.filter fun c => b.program.needsInitialization c.name).flatMap fun c =>
    [.define (b.program.initializer c), .blank]

/-- The entry point, if the program has one. -/
def main (b : Backend) : Except BackendError (List (Entry Label)) :=
  match b.program.entryPoint with
  | none => .ok []
  | some entry => do return [.define (← b.program.main entry), .blank]

/-- The entries of the module. -/
def entries (b : Backend) : Pooled (List (Entry Label)) := do
  let classes := b.program.sortedClasses
  let statics ← classes.mapM ClassDef.staticEntries
  let methods ← classes.mapM b.methods
  let metadata ← classes.mapM fun c => (b.metadata c : Pooled (Entry Label))
  let main ← b.main
  let pools ← get
  let literals ← pools.literals.entries b.program b.settings.stringClass b.settings.charsField
  return b.settings.heading
    ++ Environment.prologue ++ [.blank]
    ++ [b.headerType] ++ classes.flatMap b.classTypes ++ [.blank]
    ++ statics.flatten ++ [.blank]
    ++ methods.flatten
    ++ b.initializers
    ++ metadata ++ b.arrayMetadata ++ [.blank]
    ++ classes.flatMap b.fieldTable ++ [b.stackRoots, .blank]
    ++ main
    ++ literals ++ [.blank]
    ++ pools.sites.entries ++ [.blank]
    ++ Environment.epilogue

end Backend

/-- The text of the module of a program. -/
def Program.compile (p : Program) (settings : Settings) : Except BackendError String := do
  let b ← Backend.ofProgram p settings
  let (entries, _) ← b.entries.run .empty
  return moduleText entries

end ObjectBackend
