import ObjectBackend.Objects.TagWalk

/-!
# Type tags

Every class that is not an interface has a tag, the number that the walk through the program gives
it, and its instances carry it. The walk gives a class a range that holds just the tags of the class
and of its subclasses, so a subclass test is a test for an interval. An interface has the ranges of
all classes that implement it, fused where they touch.

There are tags only if the walk comes to every class; `TagMap.ofProgram` names the first class that
it does not come to.
-/

namespace ObjectBackend

/-- Why a class has no tag. -/
inductive HierarchyFault where
  | missingParent (parent : String)
  | interfaceParent (parent : String)
  /-- The line of descent is blamed as a whole. -/
  | cycle (line : List String)
deriving DecidableEq

namespace HierarchyFault

/-- The message of a fault. -/
def message : HierarchyFault → String
  | missingParent parent => "parent " ++ parent ++ " is missing"
  | interfaceParent parent => "parent " ++ parent ++ " is an interface"
  | cycle line => "inheritance cycle through " ++ String.intercalate " -> " line

end HierarchyFault

namespace Program

/-- Why a class that the walk does not come to has no tag. Only its own parent is looked at; a fault
further up counts as a cycle. -/
def hierarchyFault (p : Program) (c : ClassDef) : HierarchyFault :=
  match c.parentName with
  | none => .cycle (p.ancestors c.name |>.map (·.name))
  | some parent =>
    match p.lookup? parent with
    | none => .missingParent parent
    | some d =>
      if d.isInterface then .interfaceParent parent
      else .cycle (p.ancestors c.name |>.map (·.name))

end Program

/-- The tags of a program: a range for each class, the ranges of each interface and the number of
tags. -/
structure TagMap where
  classes : List (String × TagRange)
  interfaces : List (String × List TagRange)
  count : Nat

namespace TagMap

/-- The ranges of those classes that implement an interface. -/
def implementorRanges (p : Program) (ranges : List (String × TagRange)) (name : String) :
    List TagRange :=
  (ranges.filter fun (c, _) => (p.allInterfaces c).any (·.name = name)).map (·.2)

/-- The range that a walk has given a class, which is at fault if there is none. -/
def rangeGiven (p : Program) (w : TagWalk) (c : ClassDef) :
    Except (String × HierarchyFault) (String × TagRange) :=
  match w.ranges.lookup c.name with
  | none => .error (c.name, p.hierarchyFault c)
  | some range => .ok (c.name, range)

/-- The tags of a program, or the first class that cannot have one. -/
def ofProgram (p : Program) : Except (String × HierarchyFault) TagMap := do
  let walk := TagWalk.finished p
  let classes ← p.concreteClasses.mapM (rangeGiven p walk)
  let interfaces := p.interfaces.map fun c =>
    (c.name, TagRange.merge (implementorRanges p classes c.name))
  return { classes, interfaces, count := walk.counter }

/-- The range of a class. -/
def classRange? (t : TagMap) (name : String) : Option TagRange := t.classes.lookup name

/-- The ranges in which the tag of an instance of a class or an interface lies. -/
def ranges? (t : TagMap) (name : String) : Option (List TagRange) :=
  match t.classRange? name with
  | some range => some [range]
  | none => t.interfaces.lookup name

/-- The tag that the instances of a class carry. -/
def tag? (t : TagMap) (name : String) : Option Int := (t.classRange? name).map (·.lower)

/-- Whether a class is a subtype of a class or an interface, as far as the tags tell. -/
def isSubtype (t : TagMap) (sub sup : String) : Bool :=
  match t.tag? sub, t.ranges? sup with
  | some tag, some ranges => ranges.any (·.containsTag tag)
  | _, _ => false

end TagMap

end ObjectBackend
