import ObjectBackend.Backend.Error
import ObjectBackend.Image.Label
import ObjectBackend.Objects.Layout
import ObjectBackend.Target.Module
import ObjectBackend.Text.Units

/-!
# String literals

The literals of a module, numbered in the order of their first use; equal texts share a number. An
index beside the list finds the number of a text, and always has just the texts of the list with
their positions (`Literals.indexed`). Each literal becomes an object of the string class and an
array of its code units. Both are laid out in advance and marked before the program starts, so that
the collector leaves them alone.
-/

namespace ObjectBackend

open Target

/-- The different literals in the order of their numbers, with an index. -/
structure Literals where
  texts : List String
  /-- The number of each text, the last one first. -/
  index : List (String × Nat)
  /-- The index has the texts with their positions. -/
  indexed : ∀ text id, index.lookup text = some id ↔ texts[id]? = some text
deriving DecidableEq

namespace Literals

/-- No literals. -/
def empty : Literals := { texts := [], index := [], indexed := by simp }

/-- A text that is not in the index can be added to it, with the next position. -/
theorem indexed_add {l : Literals} {text : String} (new : l.index.lookup text = none)
    (other : String) (id : Nat) :
    ((text, l.texts.length) :: l.index).lookup other = some id ↔
      (l.texts ++ [text])[id]? = some other := by
  by_cases same : other = text
  · subst same
    have unused : l.texts[id]? ≠ some other := fun used => by
      rw [← l.indexed, new] at used
      cases used
    rw [List.lookup_cons_self, Option.some.injEq]
    constructor
    · rintro rfl
      simp
    · intro used
      rcases Nat.lt_trichotomy id l.texts.length with lt | eq | gt
      · rw [List.getElem?_append_left lt] at used
        exact absurd used unused
      · exact eq.symm
      · rw [List.getElem?_eq_none (by simp; omega)] at used
        cases used
  · have differs : (other == text) = false := beq_false_of_ne same
    rw [List.lookup_cons, differs, l.indexed]
    rcases Nat.lt_or_ge id l.texts.length with lt | ge
    · rw [List.getElem?_append_left lt]
    · rw [List.getElem?_append_right ge, List.getElem?_eq_none ge]
      cases id - l.texts.length with
      | zero => simp [Ne.symm same]
      | succ n => simp

/-- Add a text that is not in the index. -/
def add (l : Literals) (text : String) (new : l.index.lookup text = none) : Literals :=
  { texts := l.texts ++ [text]
    index := (text, l.texts.length) :: l.index
    indexed := indexed_add new }

/-- The number of a text, which becomes a literal if it is not one yet. -/
def intern (l : Literals) (text : String) : Nat × Literals :=
  match found : l.index.lookup text with
  | some id => (id, l)
  | none => (l.texts.length, l.add text found)

/-- The mark of an object that the collector leaves alone. -/
def mark : Int := Int32.minValue.toInt

/-- What an object of a class starts with. -/
def objectHeader (metadata : Symbol) : IrType × Constant :=
  (.runtime .object, .record [Constant.ptr (.symbol metadata), Constant.i32 (.int 0)])

/-- The array of the characters of a literal. -/
def charsEntry (id : Nat) (text : String) : Entry Label :=
  let units := Text.unitsOf text
  let items : IrType := .array units.length .i16
  .data (.literalChars id) .privateData (.struct [.runtime .array, items])
    (.record
      [(.runtime .array,
          .record
            [objectHeader (.arrayMetadata .char), Constant.i32 (.int units.length),
              Constant.ptr .null]),
        (items, .sequence (units.map fun (unit : Nat) => (IrType.i16, .value (.int unit))))])

/-- The contents of a field of a literal: its characters or zero. -/
def fieldContents (id : Nat) (charsIndex : Nat) (f : FieldSlot) : IrType × Constant :=
  let type := IrType.storage f.type
  if f.index = charsIndex then (type, .value (.symbol (.literalChars id)))
  else (type, .value (.zeroOf type))

/-- The object of a literal, given the fields of its class and the index of the characters. -/
def objectEntry (className : String) (fields : List FieldSlot) (charsIndex id : Nat) :
    Entry Label :=
  .data (.literal id) .privateData (.named (.instances className))
    (.record (objectHeader (.metadata className) :: fields.map (fieldContents id charsIndex)))

/-- The line that marks an object. -/
def markLine (object : Symbol) : Line Label Label :=
  .run (.store (.i32 mark) (.part (.runtime .object) object [0, 1]))

/-- The function that marks all literals. -/
def initFunction (count : Nat) : Function Label :=
  { name := .runtime .initStringPool
    result := .void
    parameters := []
    blocks :=
      [{ label := .entry
         lines := (List.range count).flatMap (fun id =>
             [markLine (.literal id), markLine (.literalChars id)])
           ++ [.leave (.ret none)] }] }

/-- The fields of the string class and the index of the one that holds the characters. -/
def stringFields (p : Program) (className charsField : String) :
    Except BackendError (List FieldSlot × Nat) :=
  match p.layout? className with
  | none => .error (.missingClass className)
  | some layout =>
    match layout.field? charsField with
    | none => .error (.missingField ⟨className, charsField⟩)
    | some chars => .ok (layout.fields, chars.index)

/-- The data of all literals and the function that marks them. The string class is needed only if
there are literals. -/
def entries (l : Literals) (p : Program) (className charsField : String) :
    Except BackendError (List (Entry Label)) := do
  let (fields, charsIndex) ←
    if l.texts.isEmpty then .ok ([], 0) else stringFields p className charsField
  let data := l.texts.zipIdx.flatMap fun (text, id) =>
    [charsEntry id text, objectEntry className fields charsIndex id]
  return data ++ [.blank, .define (initFunction l.texts.length)]

end Literals

end ObjectBackend
