import ObjectBackend.Lowering.Access

/-!
# Type tests

The code that tests whether a reference is an instance of a type. Null is an instance of nothing, so
the metadata of an object is looked at only behind a test for null. The subclasses of a class have
the tags of one range, and the implementors of an interface those of several. An array of references
is told from others by the class of its elements; arrays within arrays are told by their own kind
only.
-/

namespace ObjectBackend.Lowering

open Target

/-- The index of the tag in the metadata of a class. -/
def tagIndex : Int := 2

/-- Write a truth value to the register of a variable. -/
def copyFlag (receiver : Var) (flag : Value) : Emit Unit :=
  .assignVar receiver (.cast .zext ⟨.i1, flag⟩ .i32)

/-- The result of a test that no value passes. -/
def failTest (receiver : Var) : Emit Unit := .copyTo receiver .i32 (.int 0)

/-- Test that a reference is not null. -/
def nullTest (receiver value : Var) : Emit Unit := do
  copyFlag receiver (← .define (.icmp .ne .ptr (.ofVar value) .null))

/-- Branch to a test or around it, given the labels behind the test and of the test itself. The
result is false if the test is not reached. -/
def testOrSkip (branch : Label → Label → Term Label) (test : Emit Value) : Emit Value := do
  let source ← .here
  let done ← .split source
  let check ← .split source
  .leave (branch done check)
  .continueAt check
  let result ← test
  let tested ← .here
  .leave (.br done)
  .continueAt done
  let flag ← .fresh
  .phi flag .i1 [(.bool false, .label source), (result, .label tested)]
  return flag

/-- Test the metadata of an object; null does not pass. -/
def objectTest (receiver value : Var) (test : Value → Emit Value) : Emit Unit := do
  let isNull ← .define (.icmp .eq .ptr (.ofVar value) .null)
  let flag ← testOrSkip (fun done check => .condBr isNull done check) do
    test (← .define (.load .ptr (.ofVar value)))
  copyFlag receiver flag

/-- Test that metadata is that of one class. -/
def isMetadata (symbol : Symbol) (metadata : Value) : Emit Value :=
  .define (.icmp .eq .ptr metadata (.symbol symbol))

/-- Test that a tag is in a range. -/
def tagInRange (tag : Value) (r : TagRange) : Emit Value := do
  let above ← .define (.icmp .sge .i32 tag (.int r.lower))
  let below ← .define (.icmp .slt .i32 tag (.int r.upper))
  .define (.binary .and .i1 above below)

/-- Test that the tag in metadata is in one of several ranges. -/
def tagInRanges (ranges : List TagRange) (metadata : Value) : Emit Value := do
  let address ← .define (.fieldOf (.runtime .header) metadata [0, tagIndex])
  let tag ← .define (.load .i32 address)
  match ranges with
  | [] => return .bool false
  | r :: rest =>
    rest.foldlM (fun found r => do .define (.binary .or .i1 found (← tagInRange tag r)))
      (← tagInRange tag r)

/-- Test that an object is an array of an element kind. -/
def arrayTest (receiver value : Var) (kind : ElementKind) : Emit Unit :=
  objectTest receiver value (isMetadata (.arrayMetadata kind))

/-- Test that an object is an array of references whose elements have a class that passes. -/
def itemClassTest (receiver value : Var) (test : Value → Emit Value) : Emit Unit :=
  objectTest receiver value fun metadata => do
    let isArray ← isMetadata (.arrayMetadata .object) metadata
    testOrSkip (fun done check => .condBr isArray check done) do
      let slot ← .define (.fieldOf (.runtime .array) (.ofVar value) [0, itemClassIndex])
      test (← .define (.load .ptr slot))

/-- The ranges of the tags of a class's subclasses or an interface's implementors. -/
def tagRanges (c : Context) (className : String) : List TagRange :=
  (c.backend.tags.ranges? className).getD []

/-- Code that tests for a class or an interface. All objects are instances of the root class, and
arrays of no other class. -/
def classTest (c : Context) (receiver value : Var) (className : String) :
    Except BackendError (Emit Unit) := do
  let kind ← c.kindOf value
  c.expectClass className
  let ranges := tagRanges c className
  return if className = c.backend.settings.rootClass then nullTest receiver value
    else if kind ≠ .object || ranges.isEmpty then failTest receiver
    else objectTest receiver value (tagInRanges ranges)

/-- Code that tests for an array of references. -/
def referenceArrayTest (c : Context) (receiver value : Var) :
    ValueType → Except BackendError (Emit Unit)
  | .object className =>
    if className = c.backend.settings.rootClass then return arrayTest receiver value .object
    else do
      c.expectClass className
      let ranges := tagRanges c className
      return if ranges.isEmpty then failTest receiver
        else itemClassTest receiver value (tagInRanges ranges)
  | .array inner =>
    return itemClassTest receiver value (isMetadata (.arrayMetadata inner.elementKind))
  | item => c.mismatch (.arrayTest item)

/-- Code that tests whether a reference is an instance of a type. -/
def isInstance (c : Context) (receiver value : Var) (type : ValueType) :
    Except BackendError (Emit Unit) := do
  c.expectReference value
  c.expect receiver .i32
  match type with
  | .object className => classTest c receiver value className
  | .array item =>
    if item.elementKind = .object then referenceArrayTest c receiver value item
    else if (← c.kindOf value) = .array item.elementKind then return nullTest receiver value
    else return arrayTest receiver value item.elementKind
  | _ => c.mismatch (.typeTest type)

end ObjectBackend.Lowering
