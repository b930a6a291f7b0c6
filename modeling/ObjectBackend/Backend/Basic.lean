import ObjectBackend.Backend.Error
import ObjectBackend.Backend.Settings
import ObjectBackend.Objects.Dispatch
import ObjectBackend.Objects.Layout
import ObjectBackend.Source.Validity

/-!
# The back end of a program

A program that has been checked, with the settings, the tags and the dispatch tables that every part
of its module is made from.
-/

namespace ObjectBackend

/-- A checked program with what its module is made from. -/
structure Backend where
  program : Program
  settings : Settings
  tags : TagMap
  tables : DispatchTables

/-- Check a program and give its classes tags and dispatch tables. -/
def Backend.ofProgram (program : Program) (settings : Settings) :
    Except BackendError Backend := do
  program.check.mapError .program
  let tags ← (TagMap.ofProgram program).mapError fun (name, fault) => .hierarchy name fault
  let tables ← (DispatchTables.ofProgram program).mapError .duplicateSlot
  return { program, settings, tags, tables }

end ObjectBackend
