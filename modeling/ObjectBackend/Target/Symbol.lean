import ObjectBackend.Target.Mangling

/-!
# Symbols

The names that a module defines or refers to: those of functions and data, and those of structure
types. Each symbol says what it stands for; its text follows from that. A name that is given from
outside stands for itself.
-/

namespace ObjectBackend.Target

/-- What a module and its run-time environment have in common besides functions of the program. -/
inductive RuntimeSymbol where
  /-- The frame of the running method. -/
  | stackTop
  /-- The exception that is being thrown. -/
  | pendingException
  | init
  | alloc
  | allocArray
  | cloneArray
  | throw
  | catchException
  | selectHandler
  | initStringPool
  | stackRoots
  | callSites
  | callSiteCount
  /-- The three-way comparison of a numeric type. -/
  | compare (type : Numeric)
deriving DecidableEq

namespace RuntimeSymbol

/-- The name of a run-time symbol, without the family it belongs to. -/
def name : RuntimeSymbol → String
  | stackTop => "stackTop"
  | pendingException => "pendingException"
  | init => "init"
  | alloc => "alloc"
  | allocArray => "allocArray"
  | cloneArray => "cloneArray"
  | throw => "throw"
  | catchException => "catchException"
  | selectHandler => "selectHandler"
  | initStringPool => "initStringPool"
  | stackRoots => "stackRoots"
  | callSites => "callSites"
  | callSiteCount => "callSiteCount"
  | compare .int => "cmp.i32"
  | compare .long => "cmp.i64"
  | compare .float => "cmp.float"
  | compare .double => "cmp.double"

end RuntimeSymbol

/-- The name of a function or of data. -/
inductive Symbol where
  | method (method : MethodRef)
  /-- A static field. -/
  | field (className name : String)
  /-- The metadata of a class or an interface. -/
  | metadata (className : String)
  /-- The table of a class's own reference fields. -/
  | fieldTable (className : String)
  /-- The routine that initializes a class once. -/
  | initializer (className : String)
  /-- The metadata of the arrays of an element kind. -/
  | arrayMetadata (kind : ElementKind)
  /-- The object of a string literal. -/
  | literal (id : Nat)
  /-- The characters of a string literal. -/
  | literalChars (id : Nat)
  /-- The handlers of a call site. -/
  | handlers (site : Nat)
  | runtime (symbol : RuntimeSymbol)
  /-- The entry point of the module. -/
  | main
  | named (name : String)
deriving DecidableEq

/-- The text of a symbol. -/
def Symbol.text : Symbol → String
  | method m => "m" ++ String.ofList (methodParts m)
  | field className name => "f" ++ String.ofList (sized className ++ sized name)
  | metadata className => "vtable." ++ String.ofList (sized className)
  | fieldTable className => "fields." ++ String.ofList (sized className)
  | initializer className => "initializer_" ++ String.ofList (sized className)
  | arrayMetadata kind => "rt." ++ kind.name ++ "Array"
  | literal id => "str." ++ toString id
  | literalChars id => "str.chars." ++ toString id
  | handlers site => "callsite." ++ toString site
  | runtime symbol => "rt." ++ symbol.name
  | main => "main"
  | named name => name

/-- The structures that a module and its run-time environment have in common. -/
inductive RuntimeType where
  /-- What every object starts with. -/
  | object
  | fields
  /-- What every array starts with. -/
  | array
  | stackFrame
  | callSite
  /-- What the metadata of every class starts with. -/
  | header
deriving DecidableEq

namespace RuntimeType

/-- The name of a run-time structure, without the family it belongs to. -/
def name : RuntimeType → String
  | object => "Object"
  | fields => "Fields"
  | array => "Array"
  | stackFrame => "StackFrame"
  | callSite => "CallSite"
  | header => "itable"

end RuntimeType

/-- The name of a structure type. -/
inductive TypeName where
  /-- The instances of a class. -/
  | instances (className : String)
  /-- The metadata of a class. -/
  | metadata (className : String)
  | runtime (type : RuntimeType)
  | named (name : String)
deriving DecidableEq

/-- The text of a type's name. -/
def TypeName.text : TypeName → String
  | instances className => "class." ++ String.ofList (sized className)
  | metadata className => "vtable." ++ String.ofList (sized className)
  | runtime type => "rt." ++ type.name
  | named name => name

end ObjectBackend.Target
