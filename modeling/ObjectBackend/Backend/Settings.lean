import ObjectBackend.Backend.Error
import ObjectBackend.Toml.Document

/-!
# Settings

What can be chosen about a module. The defaults are those of a program whose hierarchy starts at the
usual root and whose string literals are instances of the usual class. Settings are read from a
document that gives values to some of them; a key that names no setting is an error, so that a
misspelled one is noticed.
-/

namespace ObjectBackend

/-- The choices a module is made by. -/
structure Settings where
  /-- The name of the module's source. -/
  moduleName : String
  targetTriple : Option String
  dataLayout : Option String
  /-- The class that every hierarchy starts at; arrays are instances of it. -/
  rootClass : String
  /-- The class that string literals are instances of. -/
  stringClass : String
  /-- The field of that class which holds the characters. -/
  charsField : String
  /-- Whether every instruction is described by a comment. -/
  comments : Bool
deriving DecidableEq

namespace Settings

/-- The default settings. -/
def default : Settings :=
  { moduleName := "kindle"
    targetTriple := none
    dataLayout := none
    rootClass := "java.lang.Object"
    stringClass := "java.lang.String"
    charsField := "characters"
    comments := false }

/-- Give a value to the setting that a key names. -/
def set? (s : Settings) : String × Toml.Scalar → Option Settings
  | ("module_name", .text value) => some { s with moduleName := value }
  | ("target_triple", .text value) => some { s with targetTriple := some value }
  | ("data_layout", .text value) => some { s with dataLayout := some value }
  | ("root_class", .text value) => some { s with rootClass := value }
  | ("string_class", .text value) => some { s with stringClass := value }
  | ("string_chars_field", .text value) => some { s with charsField := value }
  | ("emit_comments", .truth value) => some { s with comments := value }
  | _ => none

/-- The settings of a document; those it does not name have their defaults. -/
def read (text : String) : Except BackendError Settings :=
  match (Toml.readEntries? text).bind (·.foldlM set? default) with
  | some s => .ok s
  | none => .error .settings

end Settings

end ObjectBackend
