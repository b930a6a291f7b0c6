import ObjectBackend.Source.Hierarchy

/-!
# Object layouts

An object is a header followed by the instance fields of its class's ancestors, the root's first,
and its class's own fields last. So the layout of a class extends that of its parent, and a field
keeps its place in all subclasses.
-/

namespace ObjectBackend

/-- An instance field in a layout. The header has the index 0. -/
structure FieldSlot where
  className : String
  name : String
  type : ValueType
  index : Nat
deriving DecidableEq

/-- Whether the collector has to follow the field. -/
def FieldSlot.isReference (f : FieldSlot) : Bool := f.type.isReference

/-- The fields of a class's instances; the first `inherited` of them come from its ancestors. -/
structure ObjectLayout where
  className : String
  parent : Option String
  fields : List FieldSlot
  inherited : Nat
deriving DecidableEq

namespace ObjectLayout

/-- The fields that the classes of a chain declare, in the order of the chain. -/
def declaredFields (chain : List ClassDef) : List (ClassDef × FieldDef) :=
  chain.flatMap fun c => c.instanceFields.map (c, ·)

/-- The fields of the classes of a chain one after the other, from index 1 on. -/
def place (chain : List ClassDef) : List FieldSlot :=
  (declaredFields chain).zipIdx.map fun ((c, f), i) =>
    { className := c.name, name := f.name, type := f.type, index := i + 1 }

/-- The fields that the class itself declares. -/
def ownFields (l : ObjectLayout) : List FieldSlot := l.fields.drop l.inherited

/-- The own fields that the collector has to follow. -/
def ownReferences (l : ObjectLayout) : List FieldSlot := l.ownFields.filter (·.isReference)

/-- The last field with a name, which hides the others. -/
def field? (l : ObjectLayout) (name : String) : Option FieldSlot :=
  l.fields.reverse.find? (·.name = name)

end ObjectLayout

namespace Program

/-- The layout of the instances of a class; an interface has none. -/
def layout? (p : Program) (name : String) : Option ObjectLayout :=
  ((p.lookup? name).filter (!·.isInterface)).map fun c =>
    { className := c.name
      parent := c.parentName
      fields := ObjectLayout.place (p.ancestors name).reverse
      inherited := (ObjectLayout.declaredFields ((p.ancestors name).drop 1)).length }

/-- The place of the instance field that a reference names, among the fields of its class. -/
def fieldSlot? (p : Program) (f : FieldRef) : Option FieldSlot :=
  (p.layout? f.className).bind (·.field? f.name)

end Program

end ObjectBackend
