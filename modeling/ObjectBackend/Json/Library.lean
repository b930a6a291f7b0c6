import ObjectBackend.Json.Reader
import ObjectBackend.Json.Writer

/-!
# JSON libraries

Programs are kept as texts by a library that writes documents and reads them. Reading and writing
programs is told over any such library, so that what is asked of it can be named.
-/

namespace ObjectBackend.Json

/-- A library that writes documents and reads texts. -/
structure Library where
  /-- The text of a document. -/
  write : Json → String
  /-- The document a text writes, if it can be read. -/
  read? : String → Option Json

/-- Documents over many lines, and the strict reader with its limited nesting. -/
def library : Library where
  write := pretty 0
  read? := Json.read?

end ObjectBackend.Json
