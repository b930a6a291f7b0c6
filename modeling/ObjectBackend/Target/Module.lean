import ObjectBackend.Target.Function

/-!
# Modules

A module is a list of entries: comments and blank lines, a heading, types, declarations, data and
functions. Data is given by nested constants, each with its type.
-/

namespace ObjectBackend.Target

/-- The contents of a piece of data. -/
inductive Constant where
  | value (value : Value)
  | record (fields : List (IrType × Constant))
  | sequence (items : List (IrType × Constant))

namespace Constant

mutual

/-- The text of a constant. A sequence of no items is written as zero. -/
def text : Constant → String
  | value v => v.text
  | record fields => "\x7b " ++ String.intercalate ", " (texts fields) ++ " \x7d"
  | sequence [] => Value.zero.text
  | sequence (item :: items) =>
    "[" ++ String.intercalate ", " (typedText item :: texts items) ++ "]"

/-- The text of a constant after that of its type. -/
def typedText : IrType × Constant → String
  | (type, constant) => type.text ++ " " ++ constant.text

/-- The texts of several constants, each after that of its type. -/
def texts : List (IrType × Constant) → List String
  | [] => []
  | item :: items => typedText item :: texts items

end

/-- A reference constant. -/
def ptr (v : Value) : IrType × Constant := (.ptr, .value v)

/-- A 32-bit constant. -/
def i32 (v : Value) : IrType × Constant := (.i32, .value v)

/-- A 64-bit constant. -/
def i64 (v : Value) : IrType × Constant := (.i64, .value v)

end Constant

/-- How data is stored and who sees it. -/
inductive Storage where
  | data
  | privateData
  | readOnly
  | privateReadOnly
deriving DecidableEq

/-- The spelling of a kind of storage. -/
def Storage.text : Storage → String
  | data => "global"
  | privateData => "private global"
  | readOnly => "constant"
  | privateReadOnly => "private constant"

/-- An entry of a module. -/
inductive Entry (ℓ : Type) where
  | blank
  | comment (text : String)
  | sourceName (name : String)
  | dataLayout (layout : String)
  | targetTriple (triple : String)
  | typeDef (name : TypeName) (fields : List IrType)
  /-- Data that is defined elsewhere. -/
  | external (symbol : Symbol) (type : IrType)
  /-- A function that is defined elsewhere. -/
  | declare (result : IrType) (symbol : Symbol) (parameters : List IrType)
  | data (symbol : Symbol) (storage : Storage) (type : IrType) (contents : Constant)
  | define (function : Function ℓ)

/-- The text of an entry, with the line break after it. -/
def Entry.text {ℓ : Type} [BlockLabel ℓ] : Entry ℓ → String
  | blank => "\n"
  | comment text => "; " ++ text ++ "\n"
  | sourceName name => "source_filename = \"" ++ name ++ "\"\n"
  | dataLayout layout => "target datalayout = \"" ++ layout ++ "\"\n"
  | targetTriple triple => "target triple = \"" ++ triple ++ "\"\n"
  | typeDef name fields => "%" ++ name.text ++ " = type " ++ (IrType.struct fields).text ++ "\n"
  | external symbol type => "@" ++ symbol.text ++ " = external global " ++ type.text ++ "\n"
  | declare result symbol parameters =>
    "declare " ++ result.text ++ " @" ++ symbol.text ++ "("
      ++ String.intercalate ", " (parameters.map IrType.text) ++ ")\n"
  | data symbol storage type contents =>
    "@" ++ symbol.text ++ " = " ++ storage.text ++ " " ++ type.text ++ " " ++ contents.text ++ "\n"
  | define function => function.text

/-- The text of a list of entries. -/
def moduleText {ℓ : Type} [BlockLabel ℓ] (entries : List (Entry ℓ)) : String :=
  String.join (entries.map Entry.text)

end ObjectBackend.Target
