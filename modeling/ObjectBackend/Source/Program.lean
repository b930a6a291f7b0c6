import ObjectBackend.Source.Class

/-!
# Programs

A program is a list of classes with different names, in the order they were added, and perhaps an
entry point. That the names differ is part of the type, so a name looks up at most one class, and
the class found is the one of that name (`Program.lookup?_eq_some_iff`).
-/

namespace ObjectBackend

/-- What can be wrong with a program by itself. -/
inductive ProgramError where
  /-- The text is no document of a program. -/
  | unreadable
  | duplicateClass (name : String)
  | unknownBlock (method : String) (block : BlockId)
  | unknownVariable (method : String) (v : Var)
  | missingTerminator (method : String) (block : BlockId)
  /-- The body has no blocks. -/
  | noBlocks (method : String)
  /-- A phi names a block that is not a predecessor of its own. -/
  | notPredecessor (method : String) (receiver : Var) (block source : BlockId)
  /-- A value reaches a handler but is defined only after the first call site of the block. -/
  | lateValue (method : String) (value : Var) (handler block : BlockId)
deriving DecidableEq

namespace ProgramError

/-- The message of an error. -/
def message : ProgramError → String
  | unreadable => "JSON error"
  | duplicateClass name => "Duplicate class: " ++ name
  | unknownBlock method block =>
    "Unknown block " ++ toString block.index ++ " referenced in " ++ method
  | unknownVariable method v =>
    "Unknown variable " ++ v.text ++ " referenced in " ++ method
  | missingTerminator method block =>
    "Block " ++ block.text ++ " of " ++ method ++ " has no terminator"
  | noBlocks method => "Malformed body of " ++ method ++ ": body has no blocks"
  | notPredecessor method receiver block source =>
    "Malformed body of " ++ method ++ ": phi " ++ receiver.text ++ " in " ++ block.text
      ++ " has incoming from " ++ source.text ++ ", which is not a predecessor"
  | lateValue method value handler block =>
    "Malformed body of " ++ method ++ ": " ++ value.text ++ " reaches handler " ++ handler.text
      ++ " but is defined after the first call site of " ++ block.text

end ProgramError

/-- A set of classes with different names, and perhaps the method where execution starts. -/
structure Program where
  classes : List ClassDef
  entryPoint : Option MethodRef
  nodup : (classes.map (·.name)).Nodup

namespace Program

/-- The program without classes. -/
def empty : Program := { classes := [], entryPoint := none, nodup := List.nodup_nil }

/-- The class with a name. -/
def lookup? (p : Program) (name : String) : Option ClassDef := p.classes.find? (·.name = name)

/-- Add a class whose name is new. -/
def addClass (p : Program) (c : ClassDef) : Except ProgramError Program :=
  if h : c.name ∈ p.classes.map (·.name) then .error (.duplicateClass c.name)
  else
    .ok { p with
      classes := p.classes ++ [c]
      nodup := by
        rw [List.map_append, List.nodup_append]
        refine ⟨p.nodup, by simp, ?_⟩
        rintro a ha b hb rfl
        exact h (by simpa [List.mem_singleton.mp hb] using ha) }

/-- The program of a list of classes, which must have different names. -/
def ofClasses (classes : List ClassDef) (entryPoint : Option MethodRef) :
    Except ProgramError Program := do
  let p ← classes.foldlM addClass empty
  return { p with entryPoint }

/-- The position of the class with a name. -/
def indexOf? (p : Program) (name : String) : Option Nat := p.classes.findIdx? (·.name = name)

/-- The classes sorted by name. -/
def sortedClasses (p : Program) : List ClassDef :=
  p.classes.mergeSort fun a b => decide (a.name ≤ b.name)

/-- The method that the class named in a reference declares. -/
def method? (p : Program) (m : MethodRef) : Option MethodDef := do
  (← p.lookup? m.className).method? m.signature

/-- The field that the class named in a reference declares. -/
def field? (p : Program) (f : FieldRef) : Option FieldDef := do
  (← p.lookup? f.className).field? f.name

/-- A name looks up the one class that has it. -/
theorem lookup?_eq_some_iff {p : Program} {name : String} {c : ClassDef} :
    p.lookup? name = some c ↔ c ∈ p.classes ∧ c.name = name := by
  constructor
  · intro h
    exact ⟨List.mem_of_find?_eq_some h, by simpa using List.find?_some h⟩
  · rintro ⟨mem, rfl⟩
    obtain ⟨classes, entryPoint, nodup⟩ := p
    simp only [lookup?] at mem ⊢
    induction classes with
    | nil => cases mem
    | cons d ds ih =>
      rw [List.map_cons, List.nodup_cons] at nodup
      rcases List.mem_cons.mp mem with rfl | mem
      · simp
      · have ne : d.name ≠ c.name := fun eq =>
          nodup.1 (eq ▸ List.mem_map_of_mem mem)
        rw [List.find?_cons_of_neg (by simpa using ne)]
        exact ih nodup.2 mem

/-- A class is looked up by its name. -/
theorem lookup?_of_mem {p : Program} {c : ClassDef} (mem : c ∈ p.classes) :
    p.lookup? c.name = some c :=
  lookup?_eq_some_iff.2 ⟨mem, rfl⟩

/-- A name stands for one class. -/
theorem eq_of_name_eq {p : Program} {c d : ClassDef} (memc : c ∈ p.classes) (memd : d ∈ p.classes)
    (eq : c.name = d.name) : c = d :=
  Option.some.inj ((lookup?_of_mem memc).symm.trans (eq ▸ lookup?_of_mem memd))

end Program

end ObjectBackend
